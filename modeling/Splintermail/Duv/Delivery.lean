/-
This file proves that the passthru stream keeps its contract in every sane run, and shows
what happens in the others.

An event changes the accounts and then leaves the rest to `advance_state`, or it calls back
and leaves a frame. When the callback returns the frame is taken away, and `advance_state`
goes on where the event has left it.
-/

import Splintermail.Duv.Streaming

namespace Splintermail

open List
open Outcome (Sat)

open PassthruCall

namespace Passthru

variable {p : Passthru}

/-! ### Frames -/

variable {frame : PassthruFrame} {frames : List PassthruFrame}

theorem Framed.tail (framed : Framed (frame :: frames)) :
    frames = [] ∨ frames = [.sched] ∧ (frame = .shutdown ∨ frame = .await) := by
  cases framed with
  | one => exact .inl rfl
  | within _ last => exact .inr ⟨rfl, last⟩

theorem Framed.sched_head (framed : Framed frames) (head : frames.head? = some .sched) :
    frames = [.sched] := by
  cases framed with
  | none => cases head
  | one frame =>
    cases head
    rfl
  | within frame last =>
    cases head
    rcases last with other | other <;> cases other

theorem Framed.eq_head {other : PassthruFrame} (framed : Framed (frame :: frames))
    (mem : other ∈ frame :: frames) (sched : other ≠ .sched) : other = frame := by
  rcases mem_cons.mp mem with same | below
  · exact same
  · rcases framed.tail with none | ⟨one, -⟩
    · rw [none] at below
      cases below
    · rw [one] at below
      exact absurd (mem_singleton.mp below) sched

theorem Ending.pop (ending : p.Ending) (same : p.frames = frame :: frames)
    (sched : frame ≠ .sched) : Ending { p with frames := frames } := { ending with
  framed := by
    have framed := ending.framed
    rw [same] at framed
    show Framed frames
    rcases framed.tail with none | ⟨one, -⟩
    · rw [none]
      exact .none
    · rw [one]
      exact .one _
  guard := by
    show p.scheduleGuard = true ↔ _
    rw [ending.guard, same, mem_cons]
    exact or_iff_right sched.symm }

theorem Ready.pop (ready : p.Ready) (same : p.frames = frame :: frames) (sched : frame ≠ .sched)
    (eof : frame ≠ .eof) (read : frame = .read → p.closing = true ∨ p.reads ≠ []) :
    Ready { p with frames := frames } := by
  obtain ⟨writes, reads, shutting, ending⟩ := ready
  have framed : Framed (frame :: frames) := same ▸ ending.framed
  refine ⟨{ writes with }, ?_, { shutting with }, ending.pop same sched⟩
  exact { reads with
    reading := fun reading => by
      rcases reads.reading reading with closing | waits | mem | mem
      · exact .inl closing
      · exact .inr (.inl waits)
      · rw [same] at mem
        exact (read (framed.eq_head mem nofun).symm).imp_right .inl
      · rw [same] at mem
        exact .inr (.inr (.inr (mem_of_ne_of_mem sched.symm mem)))
    ends := fun mem => reads.ends (by
      rw [same]
      exact .tail _ mem)
    eof := fun ended => by
      obtain ⟨stopped, free, empty, zero⟩ := reads.eof ended
      refine ⟨stopped, free, empty.imp_right fun mem => ?_, zero⟩
      rw [same] at mem
      exact absurd (framed.eq_head mem nofun).symm eof }

/-- A callback other than those that end something. -/
theorem Ending.callback {call : PassthruCall} (ending : p.Ending) (frames : p.frames = [])
    (sched : frame ≠ .sched) (other : ∀ hook e reads writes, call ≠ .await hook e reads writes) :
    (p.callback call frame).Ending where
  framed := by
    show Framed (frame :: p.frames)
    rw [frames]
    exact .one _
  guard := by
    show p.scheduleGuard = true ↔ PassthruFrame.sched ∈ frame :: p.frames
    rw [ending.guard, mem_cons]
    exact (or_iff_right sched.symm).symm
  want := ending.want
  close requested := (ending.close requested).imp_right (mem_append_left _)
  complete := ending.complete
  awaited := ending.awaited
  awaits := by
    show PassthruCall.awaits (p.trace ++ [call]) = p.awaited.toNat
    cases call with
    | await hook e reads writes => exact absurd rfl (other hook e reads writes)
    | _ => simpa using ending.awaits
  error := ending.error
  result hook e reads writes mem := by
    rcases mem_append.mp mem with before | last
    · exact ending.result hook e reads writes before
    · exact absurd (mem_singleton.mp last).symm (other hook e reads writes)
  handed sane := by
    show handedWrites (p.trace ++ [call]) = [] ∧ handedReads (p.trace ++ [call]) = []
    have handed := ending.handed sane
    cases call with
    | await hook e reads writes => exact absurd rfl (other hook e reads writes)
    | _ => simpa using handed

theorem Shutting.callback {call : PassthruCall} (shutting : p.Shutting)
    (other : given [call] = [] ∧ call ≠ .uvShutdown ∧ call ≠ .shutdown) :
    (p.callback call frame).Shutting where
  asked := shutting.asked
  kept := shutting.kept
  once := by
    show (p.trace ++ [call]).count .uvShutdown = p.requested.toNat
    rw [count_append, count_singleton, if_neg (by simpa using other.2.1)]
    exact shutting.once
  requested requested := by
    show p.shutdownCb = true ∧ given (p.trace ++ [call]) = p.acceptedWrites.map StreamWrite.bufs
    rw [given_append, other.1, append_nil]
    exact shutting.requested requested
  after before after split := by
    rcases split_snoc split with ⟨-, same⟩ | ⟨rest, inside⟩
    · exact absurd same other.2.1
    · exact shutting.after before rest inside
  sent := shutting.sent
  complete := shutting.complete
  waits := shutting.waits
  cbOnce := by
    show (p.trace ++ [call]).count .shutdown = p.responded.toNat
    rw [count_append, count_singleton, if_neg (by simpa using other.2.2)]
    exact shutting.cbOnce
  responded := shutting.responded
  cbAfter before after split := by
    rcases split_snoc split with ⟨-, same⟩ | ⟨rest, inside⟩
    · exact absurd same other.2.2
    · exact shutting.cbAfter before rest inside

theorem Settled.queued (settled : p.Settled) (frame : .write ∉ p.frames) : p.Queued := fun waits =>
  (settled.queue waits).imp_right (Or.resolve_right · frame)

/-! ### Calls of the user -/

theorem schedule_pending (p : Passthru) (pending : List StreamWrite) :
    { p.schedule with pending := pending } = schedule { p with pending := pending } := by
  unfold schedule
  by_cases guard : p.scheduleGuard = true
  · rw [if_pos guard, if_pos guard]
  · rw [if_neg guard, if_neg guard]

theorem pending_schedule (p : Passthru) : p.schedule.pending = p.pending := by
  unfold schedule
  split <;> rfl

theorem schedule_reading (p : Passthru) (reading : Bool) :
    { p.schedule with reading := reading } = schedule { p with reading := reading } := by
  unfold schedule
  by_cases guard : p.scheduleGuard = true
  · rw [if_pos guard, if_pos guard]
  · rw [if_neg guard, if_neg guard]

theorem Settled.of_failing (failing : p.failing = true)
    (reads : p.reading = true → p.closeRequested = true ∨ p.reads ≠ [] ∨ .read ∈ p.frames ∨
      .sched ∈ p.frames) : p.schedule.Settled := by
  unfold Passthru.schedule
  split
  · exact {
      queue := fun _ => .inl failing
      reads := reads
      shutdown := fun _ => .inr (.inl failing)
      responds := fun _ => .inr failing
      closes := fun _ => .inr (.inr rfl)
      ends := fun _ => .inr (.inl failing)
      awaits := fun _ _ => .inr (.inr rfl) }
  · exact {
      queue := fun _ => .inl failing
      reads := reads
      shutdown := fun _ => .inr (.inl failing)
      responds := fun _ => .inr failing
      closes := fun _ => .inr (.inl rfl)
      ends := fun _ => .inr (.inl failing)
      awaits := fun _ _ => .inr (.inl rfl) }

theorem read_sound (sound : p.Sound) (uv : UvAnswer) (id size : Nat) : (p.read uv id size).Sound := by
  unfold Passthru.read
  split
  · exact sound
  · next accepted =>
    simp only [Bool.or_eq_true, decide_eq_true_eq, not_or, Bool.not_eq_true] at accepted
    obtain ⟨⟨⟨-, open'⟩, -⟩, unended⟩ := accepted
    obtain ⟨⟨writes, reads, shutting, ending⟩, settled⟩ := sound
    have some : p.reads ++ [id] ≠ [] := by simp
    have ready : Ready { p with
        reads := p.reads ++ [id], acceptedReads := p.acceptedReads ++ [id] } := by
      refine ⟨{ writes with }, ?_, { shutting with }, ?_⟩
      · exact { reads with
          account := by
            show p.acceptedReads ++ [id] = _
            rw [reads.account, append_assoc]
          allocated := fun _ => some
          reading := fun _ => .inr (.inl some)
          eof := fun ended => absurd (unended.symm.trans ended) nofun }
      · exact { ending with
          awaited := fun awaited => absurd (open'.symm.trans awaited) nofun }
    dsimp only
    split
    · next failing => exact ⟨ready.schedule, Settled.of_failing failing fun _ => .inr (.inl some)⟩
    · split
      · exact ⟨ready, { settled with reads := fun _ => .inr (.inl some) }⟩
      · have ready' : Ready { p with
            reads := p.reads ++ [id], acceptedReads := p.acceptedReads ++ [id], reading := true } :=
          ⟨{ ready.writes with }, { ready.reads with
              reading := fun _ => .inr (.inl some)
              eof := fun ended => absurd (unended.symm.trans ended) nofun },
            { ready.shutting with }, { ready.ending with }⟩
        split
        · rw [schedule_reading]
          exact ⟨(ready'.fail (.uv uv.readStart) (.inl unended)).schedule,
            Settled.of_failing (failing_fail _ _) fun _ => .inr (.inl some)⟩
        · exact ⟨ready', { settled with reads := fun _ => .inr (.inl some) }⟩

theorem Ready.unasked (ready : p.Ready) (unshut : p.isShutdown = false) :
    p.shutdownCb = false ∧ p.requested = false ∧ p.complete = false ∧ p.responded = false ∧
      .uvShutdown ∉ p.trace ∧ .shutdown ∉ p.trace := by
  have shutting := ready.shutting
  have unasked : p.shutdownCb = false :=
    Bool.eq_false_iff.mpr fun asked => absurd ((shutting.asked asked).symm.trans unshut) nofun
  have unrequested : p.requested = false :=
    Bool.eq_false_iff.mpr fun requested =>
      absurd ((shutting.requested requested).1.symm.trans unasked) nofun
  have incomplete : p.complete = false :=
    Bool.eq_false_iff.mpr fun complete =>
      absurd ((shutting.complete complete).1.symm.trans unrequested) nofun
  have unanswered : p.responded = false :=
    Bool.eq_false_iff.mpr fun responded =>
      absurd ((shutting.responded responded).symm.trans incomplete) nofun
  refine ⟨unasked, unrequested, incomplete, unanswered, ?_, ?_⟩
  · refine count_eq_zero.mp ?_
    rw [shutting.once, unrequested]
    rfl
  · refine count_eq_zero.mp ?_
    rw [shutting.cbOnce, unanswered]
    rfl

theorem Ready.waits (ready : p.Ready) (open' : p.awaited = false) (unshut : p.isShutdown = false)
    (id : Nat) (bufs waiting : List Bytes) : Ready { p with
      acceptedWrites := p.acceptedWrites ++ [⟨id, bufs⟩], pending := p.pending ++ [⟨id, waiting⟩] } := by
  obtain ⟨-, unrequested, -, -, unsent, unanswered⟩ := ready.unasked unshut
  obtain ⟨writes, reads, shutting, ending⟩ := ready
  refine ⟨?_, { reads with }, ?_, ?_⟩
  · exact { writes with
      account := by
        show (p.acceptedWrites ++ [StreamWrite.mk id bufs]).map StreamWrite.id = _
        rw [map_append, writes.account]
        simp [taken]
      bytes := by
        show _ <+: (p.acceptedWrites ++ [StreamWrite.mk id bufs]).map StreamWrite.bufs
        rw [map_append]
        exact writes.bytes.trans (prefix_append _ _) }
  · exact { shutting with
      requested := fun requested => by cases unrequested.symm.trans requested
      after := fun (before after : List PassthruCall) split => by
        refine absurd ?_ unsent
        have split : p.trace = before ++ PassthruCall.uvShutdown :: after := split
        rw [split]
        simp
      cbAfter := fun (before after : List PassthruCall) split => by
        refine absurd ?_ unanswered
        have split : p.trace = before ++ PassthruCall.shutdown :: after := split
        rw [split]
        simp }
  · exact { ending with awaited := fun awaited => by cases open'.symm.trans awaited }

theorem convertToUvbufs_eq {uv : UvAnswer} {id nbufs : Nat} {q : Passthru}
    (converted : p.convertToUvbufs uv id nbufs = some q) : ∃ n, q = { p with nheapbufs := n } := by
  unfold convertToUvbufs at converted
  split at converted
  · exact ⟨p.nheapbufs, (Option.some.inj converted).symm⟩
  · split at converted
    · split at converted
      · cases converted
      · exact ⟨nbufs, (Option.some.inj converted).symm⟩
    · exact ⟨p.nheapbufs, (Option.some.inj converted).symm⟩

/-- The request of a `write_mem` that libuv does not have may change. -/
theorem taken_update {mem : Nat} (free : mem ∉ p.mems) (id : Nat) (pool : List Nat) :
    taken { p with pool := pool, req := fun other => if other = mem then some id else p.req other } =
      p.taken := by
  refine filterMap_congr fun other mem => if_neg fun same => free ?_
  rw [← same]
  exact mem

/-- A `write_mem` is taken from the pool. -/
theorem slots_fresh {mem : Nat} {pool : List Nat} (writes : p.Writes) (slots : p.pool = mem :: pool) :
    mem ∉ p.mems ∧ ((pool ++ [mem]) ++ p.mems).Perm (range 8) ∧
      (pool ++ (p.mems ++ [mem])).Perm (range 8) := by
  have all := writes.slots
  rw [slots, cons_append] at all
  have distinct : (mem :: (pool ++ p.mems)).Nodup := all.nodup_iff.mpr nodup_range
  refine ⟨fun mem => (nodup_cons.mp distinct).1 (mem_append_right _ mem), ?_, ?_⟩
  · rw [append_assoc]
    exact perm_middle.trans all
  · rw [← append_assoc]
    exact (perm_append_singleton mem _).trans all

theorem writeNow_sound (sound : p.Sound) (open' : p.awaited = false) (unshut : p.isShutdown = false)
    (sane : p.failing = false) (idle : p.pending = []) {mem : Nat} {pool : List Nat}
    (slots : p.pool = mem :: pool) (uv : UvAnswer) (id : Nat) (bufs : List Bytes) :
    (writeNow { p with acceptedWrites := p.acceptedWrites ++ [⟨id, bufs⟩] } uv id bufs mem pool).Sound := by
  obtain ⟨unasked, -, incomplete, unanswered, unsent, unshutdown⟩ := sound.ready.unasked unshut
  obtain ⟨free, back, sent⟩ := slots_fresh sound.ready.writes slots
  have closing : p.closing = false := by
    unfold Passthru.closing
    rw [sane, unanswered, Bool.and_false]
    rfl
  have unclosed := sound.ready.unclosed closing
  have all := sound.ready.all_given closing idle
  have same := taken_update free id
  -- without libuv the request goes back to the pool, and the write waits for the end
  have failed (e : PassthruError) (n : Nat) : Sound (schedule (fail { p with
      acceptedWrites := p.acceptedWrites ++ [⟨id, bufs⟩]
      req := fun other => if other = mem then some id else p.req other
      nheapbufs := n
      pool := pool ++ [mem]
      pending := p.pending ++ [⟨id, []⟩] } e)) := by
    have ready := sound.ready.waits open' unshut id bufs []
    have ready' : Ready { p with
        acceptedWrites := p.acceptedWrites ++ [⟨id, bufs⟩]
        req := fun other => if other = mem then some id else p.req other
        nheapbufs := n
        pool := pool ++ [mem]
        pending := p.pending ++ [⟨id, []⟩] } := by
      refine ⟨{ ready.writes with
          slots := back
          known := fun other given => ?_
          account := ?_ }, { ready.reads with }, { ready.shutting with }, { ready.ending with }⟩
      · show (if other = mem then some id else p.req other) ≠ none
        have apart : other ≠ mem := fun here => free (here ▸ given)
        rw [if_neg apart]
        exact ready.writes.known other given
      · refine ready.writes.account.trans ?_
        show _ ++ p.taken ++ _ = _
        rw [← same (pool ++ [mem])]
        rfl
    exact ⟨(ready'.fail e (.inr unanswered)).schedule,
      Settled.of_failing (failing_fail _ _) sound.settled.reads⟩
  have accepted (n : Nat) : Sound (submitted { p with
      acceptedWrites := p.acceptedWrites ++ [⟨id, bufs⟩]
      req := fun other => if other = mem then some id else p.req other
      nheapbufs := n } mem pool bufs) := by
    obtain ⟨⟨writes, reads, shutting, ending⟩, settled⟩ := sound
    have taken' : taken (submitted { p with
        acceptedWrites := p.acceptedWrites ++ [⟨id, bufs⟩]
        req := fun other => if other = mem then some id else p.req other
        nheapbufs := n } mem pool bufs) = p.taken ++ [id] := by
      show (p.mems ++ [mem]).filterMap (fun other => if other = mem then some id else p.req other) = _
      rw [filterMap_append, ← same pool]
      simp [taken]
    refine ⟨⟨?_, ?_, ?_, ?_⟩, ?_⟩
    · exact {
        inflight := by
          show p.inflight + 1 = (p.mems ++ [mem]).length
          rw [writes.inflight, length_append, length_singleton]
        slots := sent
        known := fun other given => by
          show (if other = mem then some id else p.req other) ≠ none
          split
          · rintro ⟨⟩
          · next apart =>
            refine writes.known other ((mem_append.mp given).resolve_right fun last => ?_)
            exact apart (mem_singleton.mp last)
        account := by
          rw [taken']
          show (p.acceptedWrites ++ [StreamWrite.mk id bufs]).map StreamWrite.id = _
          rw [map_append, writes.account, idle]
          simp [submitted]
        bytes := by
          show given (p.trace ++ [.uvWrite bufs]) <+: (p.acceptedWrites ++ [StreamWrite.mk id bufs]).map _
          rw [given_append, all, map_append]
          exact prefix_rfl
        count := fun _ => by
          have count := writes.count open'
          simp only [submitted, given_append, writeCbs_append, given_cons, writeCbs_cons, given_nil,
            writeCbs_nil, length_append, length_cons, length_nil]
          omega
        failed := writes.failed }
    · exact { reads with
        account := by simpa [submitted] using reads.account
        eof := by simpa [submitted] using reads.eof
        zero := by simpa [submitted] using reads.zero }
    · exact { shutting with
        once := by simpa [submitted] using shutting.once
        requested := fun requested => by cases unasked.symm.trans (shutting.requested requested).1
        after := fun before after split => by
          rcases split_snoc split with ⟨-, other⟩ | ⟨rest, inside⟩
          · cases other
          · refine absurd ?_ unsent
            rw [inside]
            exact mem_append_right _ mem_cons_self
        complete := fun complete => by cases incomplete.symm.trans complete
        cbOnce := by simpa [submitted] using shutting.cbOnce
        cbAfter := fun before after split => by
          rcases split_snoc split with ⟨-, other⟩ | ⟨rest, inside⟩
          · cases other
          · refine absurd ?_ unshutdown
            rw [inside]
            exact mem_append_right _ mem_cons_self }
    · exact { ending with
        close := fun requested => by cases unclosed.1.symm.trans requested
        complete := fun complete => by cases unclosed.2.1.symm.trans complete
        awaits := by simpa [submitted] using ending.awaits
        result := by simpa [submitted] using ending.result
        handed := by simpa [submitted, failing] using ending.handed }
    · exact { settled with
        queue := fun waits => absurd idle waits
        shutdown := fun asked => by cases unasked.symm.trans asked }
  unfold writeNow
  dsimp only
  split
  · rw [schedule_pending, pending_schedule]
    exact failed .nomem p.nheapbufs
  · next q converted =>
    obtain ⟨n, rfl⟩ := convertToUvbufs_eq converted
    split
    · rw [schedule_pending, pending_schedule]
      exact failed (.uv (uv.write id)) n
    · exact accepted n

theorem write_sound (sound : p.Sound) (uv : UvAnswer) (id : Nat) (bufs : List Bytes) :
    (p.write uv id bufs).Sound := by
  unfold Passthru.write
  split
  · exact sound
  · next accepted =>
    simp only [Bool.or_eq_true, not_or, Bool.not_eq_true] at accepted
    obtain ⟨⟨⟨-, open'⟩, -⟩, unshut⟩ := accepted
    have unanswered := (sound.ready.unasked unshut).2.2.2.1
    have waits := sound.ready.waits open' unshut id bufs
    have settled := sound.settled
    dsimp only
    split
    · next failing => exact ⟨waits [], { settled with queue := fun _ => .inl failing }⟩
    · next sane =>
      split
      · next idle slots =>
        exact writeNow_sound sound open' unshut (Bool.eq_false_iff.mpr sane) idle slots uv id bufs
      · next busy =>
        split
        · rw [schedule_pending, pending_schedule]
          exact ⟨((waits []).fail .nomem (.inr unanswered)).schedule,
            Settled.of_failing (failing_fail _ _) settled.reads⟩
        · refine ⟨waits bufs, { settled with queue := fun _ => ?_ }⟩
          by_cases idle : p.pending = []
          · cases slots : p.pool with
            | nil => exact .inr (.inl rfl)
            | cons mem pool => exact absurd slots (busy mem pool idle)
          · exact settled.queue idle

theorem shutdown_sound (sound : p.Sound) (uv : UvAnswer)
    (sane : p.shutdownCb = true ∨ p.failing = true ∨ p.inflight ≠ 0) : (p.shutdown uv).Sound := by
  obtain ⟨⟨writes, reads, shutting, ending⟩, settled⟩ := sound
  unfold Passthru.shutdown
  dsimp only
  split
  · next past =>
    have past : p.shutdownCb = true ∨ p.failing = true := Bool.or_eq_true_iff.mp past
    exact ⟨⟨{ writes with }, { reads with },
      { shutting with asked := fun _ => rfl, kept := fun _ => past }, { ending with }⟩, { settled with }⟩
  · next past =>
    have past : ¬ (p.shutdownCb = true ∨ p.failing = true) := fun either =>
      past (Bool.or_eq_true_iff.mpr either)
    rw [not_or] at past
    have busy : p.inflight ≠ 0 := (sane.resolve_left past.1).resolve_left past.2
    rw [if_pos busy]
    have mems : p.mems ≠ [] := by
      intro none
      rw [writes.inflight, none] at busy
      exact busy rfl
    refine ⟨⟨{ writes with }, { reads with }, ?_, { ending with }⟩,
      { settled with shutdown := fun _ => .inr (.inr (.inl mems)) }⟩
    exact { shutting with
      asked := fun _ => rfl
      kept := fun _ => .inl rfl
      requested := fun requested => ⟨rfl, (shutting.requested requested).2⟩ }

theorem failing_cancel (p : Passthru) : failing { p with canceled := true } = true := rfl

theorem cancel_sound (sound : p.Sound) : p.cancel.Sound := by
  unfold Passthru.cancel
  split
  · exact sound
  · next uncanceled =>
    simp only [Bool.or_eq_true, not_or, Bool.not_eq_true] at uncanceled
    obtain ⟨-, open'⟩ := uncanceled
    obtain ⟨⟨writes, reads, shutting, ending⟩, settled⟩ := sound
    have closing := closing_of_failing (failing_cancel p)
    refine ⟨Ready.schedule ⟨{ writes with failed := fun _ => rfl },
      { reads with reading := fun _ => .inl closing }, { shutting with
        kept := fun _ => .inr rfl
        waits := fun _ => .inr (.inr rfl) }, ?_⟩, Settled.of_failing rfl settled.reads⟩
    exact { ending with
      close := fun requested => ⟨closing, (ending.close requested).2⟩
      error := fun _ => .inr (.inr rfl)
      result := fun hook e reads writes mem => absurd mem (ending.no_await open' hook e reads writes)
      handed := nofun }

theorem await_sound (sound : p.Sound) (hook : Nat) : (p.await hook).Sound := by
  unfold Passthru.await
  split
  · exact sound
  · obtain ⟨⟨writes, reads, shutting, ending⟩, settled⟩ := sound
    have ready : Ready { p with awaitCb := some hook } :=
      ⟨{ writes with }, { reads with }, { shutting with }, { ending with }⟩
    refine ⟨ready.schedule, ?_⟩
    unfold Passthru.schedule
    split
    · next guard =>
      exact { settled with
        closes := fun _ => .inr (.inr rfl)
        awaits := fun _ _ => .inr (.inr rfl) }
    · exact { settled with
        closes := fun _ => .inr (.inl rfl)
        awaits := fun _ _ => .inr (.inl rfl) }

/-! ### Callbacks of libuv -/

/-- The loop of `respond_eof_all`, from the event on and from every callback on. -/
theorem respondEofAll_sound (frames : p.frames = []) (writes : p.Writes) (shutting : p.Shutting)
    (ending : p.Ending) (account : p.acceptedReads = readCbs p.trace ++ handedReads p.trace ++ p.reads)
    (eof : p.eof = true) (stopped : p.reading = false) (free : p.allocated = false)
    (zero : p.reads = [] → ∃ id, .read id 0 ∈ p.trace) (queued : p.Queued)
    (settled : Settled { p with frames := [.eof] }) (uv : UvAnswer) :
    Sat (p.respondEofAll uv) Sound fun _ => False := by
  unfold respondEofAll
  cases left : p.reads with
  | nil =>
    refine advance_sound ⟨writes, ?_, shutting, ending⟩ (.inl frames) queued uv
    exact {
      account := account
      allocated := fun allocated => absurd (free.symm.trans allocated) nofun
      reading := fun reading => absurd (stopped.symm.trans reading) nofun
      ends := fun _ => eof
      eof := fun _ => ⟨stopped, free, .inl left, zero left⟩
      zero := fun _ _ => eof }
  | cons id reads =>
    have open' : p.awaited = false := by
      refine Bool.eq_false_iff.mpr fun awaited => ?_
      rw [(ending.awaited awaited).2.1] at left
      cases left
    have handed := (ending.unawaited open').2
    have ending' : Ending { p with reads := reads } := { ending with
      awaited := fun awaited => absurd (open'.symm.trans awaited) nofun }
    have shutting' : Shutting { p with reads := reads } := { shutting with }
    refine ⟨⟨?_, ?_, shutting'.callback ⟨rfl, nofun, nofun⟩, ending'.callback frames nofun nofun⟩, ?_⟩
    · exact { writes with
        account := by simpa [callback, taken] using writes.account
        bytes := by simpa [callback] using writes.bytes
        count := by simpa [callback] using writes.count }
    · exact {
        account := by
          rw [left, handed] at account
          simpa [callback, handed] using account
        allocated := fun allocated => absurd (free.symm.trans allocated) nofun
        reading := fun reading => absurd (stopped.symm.trans reading) nofun
        ends := fun _ => eof
        eof := fun _ => ⟨stopped, free, .inr mem_cons_self, id, mem_append_right _ mem_cons_self⟩
        zero := fun _ _ => eof }
    · have only : PassthruFrame.eof :: p.frames = [.eof] := by rw [frames]
      show Settled (callback _ _ _)
      unfold callback
      dsimp only
      rw [only]
      exact { settled with
        reads := fun reading => absurd (stopped.symm.trans reading) nofun }

section

variable (sound : p.Sound)

include sound

theorem allocCb_sound (frames : p.frames = []) (reading : p.reading = true)
    (open' : p.closeRequested = false) : Sat p.allocCb Sound fun _ => False := by
  obtain ⟨⟨writes, reads, shutting, ending⟩, settled⟩ := sound
  have waits : p.reads ≠ [] := by
    rcases settled.reads reading with closed | waits | busy
    · exact absurd (open'.symm.trans closed) nofun
    · exact waits
    · rw [frames] at busy
      simp at busy
  have complete : p.closeComplete = false := by
    refine Bool.eq_false_iff.mpr fun complete => ?_
    exact absurd (open'.symm.trans (ending.complete complete).1) nofun
  unfold allocCb
  rw [if_neg fun empty => waits (isEmpty_iff.mp empty)]
  refine ⟨⟨{ writes with }, ?_, { shutting with }, ?_⟩, { settled with }⟩
  · exact { reads with
      allocated := fun _ => waits
      eof := fun eof => absurd (reading.symm.trans (reads.eof eof).1) nofun }
  · exact { ending with complete := fun closed => absurd (complete.symm.trans closed) nofun }

theorem readCb_sound (frames : p.frames = []) (allocated : p.allocated = true) (nread : Int)
    (fits : nread ≠ uvEnobufs) (uv : UvAnswer) : Sat (p.readCb uv nread) Sound fun _ => False := by
  have queued : p.Queued := sound.settled.queued (by rw [frames]; rintro ⟨⟩)
  obtain ⟨⟨writes, reads, shutting, ending⟩, settled⟩ := sound
  have unended : p.eof = false :=
    Bool.eq_false_iff.mpr fun eof => by cases allocated.symm.trans (reads.eof eof).2.1
  have incomplete : p.closeComplete = false := by
    refine Bool.eq_false_iff.mpr fun complete => ?_
    cases allocated.symm.trans (ending.complete complete).2.2
  have open' : p.awaited = false := by
    refine Bool.eq_false_iff.mpr fun awaited => ?_
    cases incomplete.symm.trans (ending.awaited awaited).1
  have ready : Ready { p with allocated := false } :=
    ⟨{ writes with }, { reads with
        allocated := by rintro ⟨⟩
        eof := fun eof => by cases unended.symm.trans eof }, { shutting with },
      { ending with complete := fun complete => by cases incomplete.symm.trans complete }⟩
  have go : Sat (advanceState { p with allocated := false } uv) Sound fun _ => False :=
    advance_sound ready (.inl frames) queued uv
  obtain ⟨id, rest, left⟩ := exists_cons_of_ne_nil (reads.allocated allocated)
  have same : failing { p with allocated := false } = p.failing := rfl
  unfold readCb
  dsimp only
  rw [same]
  cases sane : p.failing with
  | true => exact go
  | false =>
    have handed := (ending.handed sane).2
    rw [if_neg (by rintro ⟨⟩)]
    by_cases empty : nread < 1
    · rw [if_pos empty]
      refine Sat.ite (fun _ => ?_) fun _ => ?_
      · exact go
      · by_cases eof : nread = uvEof
        · rw [if_pos eof]
          -- the end of the file is told to all reads
          have none : p.e.isSome = false := (Bool.or_eq_false_iff.mp sane).2
          refine @respondEofAll_sound { p with allocated := false, eof := true, reading := false } frames
            { writes with } { shutting with } ?_ reads.account rfl rfl rfl (fun done => ?_) queued ?_ uv
          · exact { ending with
              close := fun requested => by
                have closing := (ending.close requested).1
                unfold Passthru.closing at closing
                rw [sane, unended] at closing
                cases closing
              complete := fun complete => by cases incomplete.symm.trans complete
              error := fun error => by cases none.symm.trans error
              result := fun hook e reads writes mem =>
                absurd mem (ending.no_await open' hook e reads writes) }
          · rw [left] at done
            cases done
          · exact { settled with
              queue := fun waits => (queued waits).imp_right .inl
              reads := by rintro ⟨⟩
              shutdown := fun asked => by
                refine (settled.shutdown asked).imp_right (Or.imp_right (Or.imp_right fun mem => ?_))
                rw [frames] at mem
                cases mem
              ends := fun _ => .inr (.inr (.inr mem_cons_self)) }
        · rw [if_neg eof, if_neg fits]
          refine Sat.ite (fun _ => ?_) fun _ => ?_
          · exact go
          · exact advance_sound (ready.fail (.uv nread) (.inl unended)) (.inl frames)
              (fun _ => .inl (failing_fail _ _)) uv
    · rw [if_neg empty, left]
      have some : nread.toNat ≠ 0 := by omega
      have ending' : Ending { p with allocated := false, reads := rest } := { ready.ending with
        awaited := fun awaited => by cases open'.symm.trans awaited }
      have shutting' : Shutting { p with allocated := false, reads := rest } := { shutting with }
      refine ⟨⟨?_, ?_, shutting'.callback ⟨rfl, by rintro ⟨⟩, by rintro ⟨⟩⟩,
        ending'.callback frames (by rintro ⟨⟩) (by rintro _ _ _ _ ⟨⟩)⟩, ?_⟩
      · exact { writes with
          account := by simpa [callback, taken] using writes.account
          bytes := by simpa [callback] using writes.bytes
          count := by simpa [callback] using writes.count }
      · exact {
          account := by
            have account := reads.account
            rw [left, handed] at account
            simpa [callback, handed] using account
          allocated := by rintro ⟨⟩
          reading := fun _ => .inr (.inr (.inl mem_cons_self))
          ends := fun mem => by
            have mem : PassthruFrame.eof ∈ PassthruFrame.read :: p.frames := mem
            rw [frames] at mem
            simp at mem
          eof := fun eof => by cases unended.symm.trans eof
          zero := fun other mem => by
            rcases mem_append.mp mem with before | last
            · exact reads.zero other before
            · have last := mem_singleton.mp last
              injection last with _ zero
              exact absurd zero.symm some }
      · exact { settled with
          queue := fun waits => (queued waits).imp_right .inl
          reads := fun _ => .inr (.inr (.inl mem_cons_self))
          shutdown := fun asked => by
            refine (settled.shutdown asked).imp_right (Or.imp_right (Or.imp_right fun mem => ?_))
            rw [frames] at mem
            cases mem
          ends := fun closing => by
            have closing : (p.failing || (p.eof && p.responded)) = true := closing
            rw [sane, unended] at closing
            cases closing }

theorem writeCb_sound (frames : p.frames = []) (busy : p.mems ≠ []) (status : Int)
    (sane : 0 ≤ status ∨ p.failing = true ∨ p.scheduled = true) :
    Sat (p.writeCb status) Sound fun _ => False := by
  have queued : p.Queued := sound.settled.queued (by rw [frames]; rintro ⟨⟩)
  obtain ⟨⟨writes, reads, shutting, ending⟩, settled⟩ := sound
  have incomplete : p.complete = false :=
    Bool.eq_false_iff.mpr fun complete => busy (shutting.complete complete).2
  have unanswered : p.responded = false := by
    refine Bool.eq_false_iff.mpr fun responded => ?_
    cases incomplete.symm.trans (shutting.responded responded)
  have unclosed : p.closeComplete = false :=
    Bool.eq_false_iff.mpr fun complete => busy (ending.complete complete).2.1
  have open' : p.awaited = false := by
    refine Bool.eq_false_iff.mpr fun awaited => ?_
    cases unclosed.symm.trans (ending.awaited awaited).1
  have handed := (ending.unawaited open').1
  have count := writes.count open'
  unfold writeCb
  split
  · next none => exact absurd none busy
  · next mem mems same =>
    have inflight : p.inflight = mems.length + 1 := by
      rw [writes.inflight, same]
      rfl
    have back : ((p.pool ++ [mem]) ++ mems).Perm (range 8) := by
      have slots := writes.slots
      rw [same] at slots
      rwa [append_assoc]
    have known : ∀ other ∈ mems, p.req other ≠ none := fun other mem =>
      writes.known other (by
        rw [same]
        exact .tail _ mem)
    split
    · next none => exact absurd none (writes.known mem (by rw [same]; exact mem_cons_self))
    · next id request =>
      have account := writes.account
      have taken : p.taken = id :: mems.filterMap p.req := by
        unfold Passthru.taken
        rw [same, filterMap_cons_some request]
      rw [taken, handed] at account
      -- a write that failed waits for the end
      have lost (e : Option PassthruError) (failing : (p.canceled || e.isSome) = true)
          (closes : p.closeRequested = true ∨ p.scheduled = true ∨ p.wantSchedule = true) :
          Sound { p with
            e := e
            mems := mems
            inflight := p.inflight - 1
            pool := p.pool ++ [mem]
            failed := p.failed ++ [id] } := by
        have closing : (p.canceled || e.isSome || (p.eof && p.responded)) = true := by
          rw [failing]
          rfl
        refine ⟨⟨?_, ?_, ?_, ?_⟩, ?_⟩
        · exact {
            inflight := by
              show p.inflight - 1 = mems.length
              rw [inflight]
              rfl
            slots := back
            known := known
            account := by
              refine account.trans ?_
              simp [Passthru.taken, handed]
            bytes := writes.bytes
            count := fun _ => by
              rw [same] at count
              simp only [length_append, length_cons, length_nil] at count ⊢
              omega
            failed := fun _ => failing }
        · exact { reads with reading := fun _ => .inl closing }
        · exact { shutting with
            kept := fun _ => .inr failing
            complete := fun complete => by cases incomplete.symm.trans complete
            waits := fun _ => .inr (.inr failing) }
        · exact { ending with
            close := fun requested => ⟨closing, (ending.close requested).2⟩
            complete := fun complete => by cases unclosed.symm.trans complete
            awaited := fun awaited => by cases open'.symm.trans awaited
            error := fun _ => .inr (.inl unanswered)
            handed := fun sane => by cases Eq.symm failing |>.trans sane }
        · exact {
            queue := fun _ => .inl failing
            reads := settled.reads
            shutdown := fun _ => .inr (.inl failing)
            responds := fun _ => .inr failing
            closes := fun _ => closes
            ends := fun _ => .inr (.inl failing)
            awaits := fun complete => by cases unclosed.symm.trans complete }
      have some : p.inflight ≠ 0 := by
        rw [inflight]
        rintro ⟨⟩
      dsimp only
      cases failing : p.failing with
      | true =>
        simp only [Bool.not_true, Bool.and_false, Bool.false_eq_true, if_false]
        rw [if_neg some]
        have failing' : Passthru.failing { p with
          mems := mems, inflight := p.inflight - 1, pool := p.pool ++ [mem] } = true := failing
        rw [if_pos failing']
        exact lost p.e failing (settled.closes failing)
      | false =>
        by_cases refused : status < 0
        · have scheduled : p.scheduled = true :=
            (sane.resolve_left (by omega)).resolve_left fun other => by cases failing.symm.trans other
          simp only [decide_eq_true refused, Bool.not_false, Bool.and_true, if_true]
          have some' : (p.fail (.uv status)).inflight ≠ 0 := some
          rw [if_neg some', if_pos]
          swap
          · exact failing_fail p (.uv status)
          exact lost (.some (.uv status)) (failing_fail p (.uv status)) (.inr (.inl scheduled))
        · simp only [decide_eq_false refused, Bool.false_and, Bool.false_eq_true, if_false]
          rw [if_neg some]
          have failing' : Passthru.failing { p with
            mems := mems, inflight := p.inflight - 1, pool := p.pool ++ [mem] } = false := failing
          rw [failing', if_neg (by rintro ⟨⟩)]
          have failed : p.failed = [] := by
            by_contra some
            cases failing.symm.trans (writes.failed some)
          have ending' : Ending { p with
              mems := mems, inflight := p.inflight - 1, pool := p.pool ++ [mem] } := { ending with
            complete := fun complete => by cases unclosed.symm.trans complete }
          have shutting' : Shutting { p with
              mems := mems, inflight := p.inflight - 1, pool := p.pool ++ [mem] } := { shutting with
            complete := fun complete => by cases incomplete.symm.trans complete }
          have write : PassthruFrame.write ∈ PassthruFrame.write :: p.frames := mem_cons_self
          refine ⟨⟨?_, ?_, shutting'.callback ⟨rfl, by rintro ⟨⟩, by rintro ⟨⟩⟩,
            ending'.callback frames (by rintro ⟨⟩) (by rintro _ _ _ _ ⟨⟩)⟩, ?_⟩
          · exact {
              inflight := by
                show p.inflight - 1 = mems.length
                rw [inflight]
                rfl
              slots := back
              known := known
              account := by
                rw [failed] at account
                simpa [Passthru.taken, callback, handed, failed] using account
              bytes := by simpa [callback] using writes.bytes
              count := fun _ => by
                rw [same] at count
                simp [callback] at count ⊢
                omega
              failed := writes.failed }
          · exact { reads with
              account := by simpa [callback] using reads.account
              reading := fun reading => (reads.reading reading).imp_right
                (Or.imp_right (Or.imp (.tail _) (.tail _)))
              ends := fun mem => reads.ends (by
                have other : PassthruFrame.eof ≠ .write := by rintro ⟨⟩
                exact mem_of_ne_of_mem other mem)
              eof := fun eof => by
                obtain ⟨stopped, free, empty, last, mem⟩ := reads.eof eof
                exact ⟨stopped, free, empty.imp_right (.tail _), last, mem_append_left _ mem⟩
              zero := by simpa [callback] using reads.zero }
          · exact { settled with
              queue := fun _ => .inr (.inr write)
              reads := fun reading => (settled.reads reading).imp_right
                (Or.imp_right (Or.imp (.tail _) (.tail _)))
              shutdown := fun _ => .inr (.inr (.inr write))
              ends := fun closing => by
                have closing : (p.failing || (p.eof && p.responded)) = true := closing
                rw [failing, unanswered, Bool.and_false] at closing
                cases closing }

theorem shutdownDone_sound (frames : p.frames = []) (sent : p.shutdownReq = true)
    (mems : p.mems = []) (uv : UvAnswer) (status : Int) :
    Sat (p.shutdownDone uv status) Sound fun _ => False := by
  have queued : p.Queued := sound.settled.queued (by rw [frames]; nofun)
  obtain ⟨⟨writes, reads, shutting, ending⟩, settled⟩ := sound
  obtain ⟨requested, incomplete⟩ := shutting.sent sent
  have unanswered : p.responded = false := by
    refine Bool.eq_false_iff.mpr fun responded => ?_
    exact absurd (incomplete.symm.trans (shutting.responded responded)) nofun
  have ready : Ready { p with complete := true, shutdownReq := false } :=
    ⟨{ writes with }, { reads with }, { shutting with
        sent := nofun
        complete := fun _ => ⟨requested, mems⟩
        waits := fun _ => .inl rfl
        responded := fun _ => rfl }, { ending with }⟩
  unfold shutdownDone
  dsimp only
  split
  · exact advance_sound (ready.fail (.uv status) (.inr unanswered)) (.inl frames)
      (fun _ => .inl (failing_fail _ _)) uv
  · exact advance_sound ready (.inl frames) queued uv

theorem closeDone_sound (frames : p.frames = []) (requested : p.closeRequested = true)
    (mems : p.mems = []) (free : p.allocated = false) (uv : UvAnswer) :
    Sat (advanceState { p with closeComplete := true } uv) Sound fun _ => False := by
  have queued : p.Queued := sound.settled.queued (by rw [frames]; nofun)
  obtain ⟨⟨writes, reads, shutting, ending⟩, settled⟩ := sound
  have ready : Ready { p with closeComplete := true } :=
    ⟨{ writes with }, { reads with }, { shutting with }, { ending with
      complete := fun _ => ⟨requested, mems, free⟩
      awaited := fun awaited => ⟨rfl, (ending.awaited awaited).2⟩ }⟩
  exact advance_sound ready (.inl frames) queued uv

theorem scheduled_sound (frames : p.frames = [] ∨ p.frames = [.sched]) (uv : UvAnswer) :
    Sat (advanceState { p with scheduled := false } uv) Sound fun _ => False := by
  have queued : p.Queued := sound.settled.queued (by
    rcases frames with none | one
    · rw [none]
      nofun
    · rw [one]
      simp)
  obtain ⟨⟨writes, reads, shutting, ending⟩, settled⟩ := sound
  have ready : Ready { p with scheduled := false } :=
    ⟨{ writes with }, { reads with }, { shutting with }, { ending with }⟩
  exact advance_sound ready frames queued uv

/-! ### Callbacks of the user that return -/

theorem eof_returns (same : p.frames = .eof :: frames) (uv : UvAnswer) :
    Sat (respondEofAll { p with frames := frames } uv) Sound fun _ => False := by
  have queued : p.Queued := sound.settled.queued (by
    rw [same]
    intro mem
    have framed := sound.ready.ending.framed
    rw [same] at framed
    cases framed.eq_head mem nofun)
  obtain ⟨⟨writes, reads, shutting, ending⟩, settled⟩ := sound
  have framed := ending.framed
  rw [same] at framed
  have none : frames = [] := framed.tail.resolve_right (by
    rintro ⟨-, other | other⟩ <;> cases other)
  subst none
  have eof : p.eof = true := reads.ends (by
    rw [same]
    exact mem_cons_self)
  obtain ⟨stopped, free, -, mem⟩ := reads.eof eof
  refine @respondEofAll_sound { p with frames := [] } rfl { writes with } { shutting with }
    (ending.pop same nofun) reads.account eof stopped free (fun _ => mem) queued ?_ uv
  show Settled { p with frames := [.eof] }
  rw [← same]
  exact settled

theorem read_returns (same : p.frames = .read :: frames) (uv : UvAnswer) :
    Sat (goOn { p with frames := frames } uv .read) Sound fun _ => False := by
  have framed := sound.ready.ending.framed
  rw [same] at framed
  have queued : p.Queued := sound.settled.queued (by
    rw [same]
    intro mem
    cases framed.eq_head mem nofun)
  have none : frames = [] := framed.tail.resolve_right (by
    rintro ⟨-, other | other⟩ <;> cases other)
  subst none
  have failing : Passthru.failing { p with frames := [] } = p.failing := rfl
  unfold goOn
  dsimp only
  rw [failing]
  refine Sat.ite (fun go => ?_) fun go => ?_
  · refine advance_sound (sound.ready.pop same nofun nofun fun _ => ?_) (.inl rfl) queued uv
    rcases Bool.or_eq_true_iff.mp go with failing | waits
    · exact .inl (closing_of_failing failing)
    · refine .inr fun none => ?_
      rw [none] at waits
      cases waits
  · rw [Bool.not_eq_true, Bool.or_eq_false_iff] at go
    obtain ⟨⟨writes, reads, shutting, ending⟩, settled⟩ := sound
    have sched : PassthruFrame.sched ∈ [PassthruFrame.sched] := mem_cons_self
    refine ⟨⟨{ writes with }, ?_, { shutting with }, ?_⟩, ?_⟩
    · exact { reads with
        reading := fun _ => .inr (.inr (.inr sched))
        ends := fun mem => absurd (mem_singleton.mp mem) nofun
        eof := fun eof => by
          obtain ⟨stopped, free, empty, zero⟩ := reads.eof eof
          refine ⟨stopped, free, .inl (empty.resolve_right fun mem => ?_), zero⟩
          rw [same] at mem
          cases framed.eq_head mem nofun }
    · exact { ending with
        framed := .one _
        guard := ⟨fun _ => sched, fun _ => rfl⟩
        want := fun _ => rfl }
    · exact { settled with
        queue := fun waits => (queued waits).imp_right .inl
        reads := fun _ => .inr (.inr (.inr sched))
        shutdown := fun asked => by
          refine (settled.shutdown asked).imp_right (Or.imp_right (Or.imp_right fun mem => ?_))
          rw [same] at mem
          cases framed.eq_head mem nofun
        ends := fun closing => by
          refine (settled.ends closing).imp_right (Or.imp_right (Or.imp (fun mem => ?_) fun mem => ?_))
          · rw [same] at mem
            cases framed.eq_head mem nofun
          · rw [same] at mem
            cases framed.eq_head mem nofun }

end

/-- The run of the scheduler is over. -/
def unguarded (p : Passthru) (reading : Bool) : Passthru :=
  { p with
    frames := [], scheduleGuard := false, wantSchedule := false,
    scheduled := p.scheduled || p.wantSchedule, reading := reading }

theorem Ready.unguarded (ready : p.Ready) (same : p.frames = [.sched]) {reading : Bool}
    (reads : reading = true → p.closing = true ∨ p.reads ≠ [])
    (stopped : p.reading = false → reading = false) : (p.unguarded reading).Ready := by
  obtain ⟨writes, reads', shutting, ending⟩ := ready
  refine ⟨{ writes with }, ?_, { shutting with }, ?_⟩
  · exact { reads' with
      reading := fun read => (reads read).imp_right .inl
      ends := nofun
      eof := fun eof => by
        obtain ⟨still, free, empty, zero⟩ := reads'.eof eof
        refine ⟨stopped still, free, .inl (empty.resolve_right fun mem => ?_), zero⟩
        rw [same] at mem
        exact absurd (mem_singleton.mp mem) nofun }
  · exact { ending with
      framed := .none
      guard := ⟨nofun, nofun⟩
      want := nofun }

theorem sched_returns (sound : p.Sound) (same : p.frames = .sched :: frames) (uv : UvAnswer) :
    Sat (goOn { p with frames := frames } uv .sched) Sound fun _ => False := by
  have framed := sound.ready.ending.framed
  rw [same] at framed
  have none : frames = [] := framed.tail.resolve_right (by
    rintro ⟨-, other | other⟩ <;> cases other)
  subst none
  have queued : p.Queued := sound.settled.queued (by
    rw [same]
    simp)
  have past : goOn { p with frames := [] } uv .sched =
      if p.failing || !p.reads.isEmpty then advanceState (p.unguarded p.reading) uv
      else advanceState (p.unguarded false) uv := by
    unfold goOn Passthru.unguarded schedule
    cases want : p.wantSchedule with
    | true =>
      rw [Bool.or_true]
      rfl
    | false =>
      rw [Bool.or_false]
      rfl
  rw [past]
  refine Sat.ite (fun go => ?_) fun _ => ?_
  · refine advance_sound (sound.ready.unguarded same (fun _ => ?_) id) (.inl rfl) queued uv
    rcases Bool.or_eq_true_iff.mp go with failing | waits
    · exact .inl (closing_of_failing failing)
    · refine .inr fun none => ?_
      rw [none] at waits
      cases waits
  · have ready : (p.unguarded false).Ready := sound.ready.unguarded same nofun fun _ => rfl
    exact advance_sound ready (.inl rfl) queued uv

theorem write_returns (sound : p.Sound) (same : p.frames = .write :: frames)
    (sane : p.failing = true ∨ p.pending = []) (uv : UvAnswer) :
    Sat (goOn { p with frames := frames } uv .write) Sound fun _ => False := by
  have framed := sound.ready.ending.framed
  rw [same] at framed
  have none : frames = [] := framed.tail.resolve_right (by
    rintro ⟨-, other | other⟩ <;> cases other)
  subst none
  exact advance_sound (sound.ready.pop same nofun nofun nofun) (.inl rfl)
    (fun waits => .inl (sane.resolve_right waits)) uv

/-- What was told to the user leaves nothing to do. -/
theorem Settled.pop (settled : p.Settled) (framed : Framed p.frames)
    (same : p.frames = frame :: frames) (last : frame = .shutdown ∨ frame = .await)
    (ends : p.closing = true → frame = .shutdown → p.closeRequested = true ∨ p.failing = true) :
    Settled { p with frames := frames } := by
  rw [same] at framed
  have only {other : PassthruFrame} (mem : other ∈ p.frames) (sched : other ≠ .sched) :
      other = .shutdown ∨ other = .await := by
    rw [same] at mem
    rw [framed.eq_head mem sched]
    exact last
  exact { settled with
    queue := fun waits => (settled.queue waits).imp_right (Or.imp_right fun mem => by
      rcases only mem nofun with other | other <;> cases other)
    reads := fun reading => by
      rcases settled.reads reading with closed | waits | mem | mem
      · exact .inl closed
      · exact .inr (.inl waits)
      · rcases only mem nofun with other | other <;> cases other
      · rw [same] at mem
        have apart : PassthruFrame.sched ≠ frame := by
          rintro rfl
          rcases last with other | other <;> cases other
        exact .inr (.inr (.inr (mem_of_ne_of_mem apart mem)))
    shutdown := fun asked =>
      (settled.shutdown asked).imp_right (Or.imp_right (Or.imp_right fun mem => by
        rcases only mem nofun with other | other <;> cases other))
    ends := fun closing => by
      have closing : p.closing = true := closing
      rcases settled.ends closing with closed | failing | mem | mem
      · exact .inl closed
      · exact .inr (.inl failing)
      · rw [same] at mem
        have told : frame = .shutdown := (framed.eq_head mem nofun).symm
        exact (ends closing told).imp_right .inl
      · rcases only mem nofun with other | other <;> cases other }

theorem shutdown_returns (sound : p.Sound) (same : p.frames = .shutdown :: frames) (uv : UvAnswer) :
    Sat (goOn { p with frames := frames } uv .shutdown) Sound fun _ => False := by
  have framed := sound.ready.ending.framed
  have ready := sound.ready.pop same nofun nofun nofun
  have queued : p.Queued := sound.settled.queued (by
    rw [same]
    intro mem
    rw [same] at framed
    cases framed.eq_head mem nofun)
  have left : frames = [] ∨ frames = [.sched] := by
    rw [same] at framed
    exact framed.tail.imp_right And.left
  unfold goOn
  dsimp only
  split
  · next closing => exact close_sound ready closing left queued
  · next open' =>
    exact ⟨ready, sound.settled.pop framed same (.inl rfl) fun closing => absurd closing open'⟩

theorem await_returns (sound : p.Sound) (same : p.frames = .await :: frames) (uv : UvAnswer) :
    Sat (goOn { p with frames := frames } uv .await) Sound fun _ => False :=
  ⟨sound.ready.pop same nofun nofun nofun,
    sound.settled.pop sound.ready.ending.framed same (.inr rfl) nofun⟩

/-! ### Runs -/

theorem step_sound (sound : p.Sound) {event : PassthruEvent × UvAnswer} (fits : p.Fits event)
    (sane : p.Sane event) : Sat (p.step event) Sound fun _ => False := by
  obtain ⟨kind, uv⟩ := event
  cases kind with
  | read id size => exact read_sound sound uv id size
  | write id bufs => exact write_sound sound uv id bufs
  | shutdown => exact shutdown_sound sound uv sane
  | cancel => exact cancel_sound sound
  | await hook => exact await_sound sound hook
  | returns =>
    unfold Passthru.step
    dsimp only
    split
    · exact sound
    · next frame frames same =>
      cases frame with
      | eof => exact eof_returns sound same uv
      | read => exact read_returns sound same uv
      | sched => exact sched_returns sound same uv
      | write => exact write_returns sound same (sane (by rw [same]; rfl)) uv
      | shutdown => exact shutdown_returns sound same uv
      | await => exact await_returns sound same uv
  | alloc => exact allocCb_sound sound fits.1 fits.2.1 fits.2.2.2
  | readDone nread => exact readCb_sound sound fits.1 fits.2.1 nread fits.2.2 uv
  | writeDone status => exact writeCb_sound sound fits.1 fits.2 status sane
  | shutdownDone status => exact shutdownDone_sound sound fits.1 fits.2.1 fits.2.2 uv status
  | closeDone =>
    obtain ⟨frames, requested, -, mems, -, free⟩ := fits
    exact closeDone_sound sound frames requested mems free uv
  | scheduled =>
    exact scheduled_sound sound (fits.2.imp_right sound.ready.ending.framed.sched_head) uv

theorem init_sound : init.Sound where
  ready :=
    { writes :=
        { inflight := rfl
          slots := List.Perm.refl _
          known := nofun
          account := rfl
          bytes := prefix_rfl
          count := fun _ => rfl
          failed := fun some => absurd rfl some }
      reads :=
        { account := rfl
          allocated := nofun
          reading := nofun
          ends := nofun
          eof := nofun
          zero := nofun }
      shutting :=
        { asked := nofun
          kept := nofun
          once := rfl
          requested := nofun
          after := fun before _ split => by
            cases before <;> cases split
          sent := nofun
          complete := nofun
          waits := nofun
          cbOnce := rfl
          responded := nofun
          cbAfter := fun before _ split => by
            cases before <;> cases split }
      ending :=
        { framed := .none
          guard := ⟨nofun, nofun⟩
          want := nofun
          close := nofun
          complete := nofun
          awaited := nofun
          awaits := rfl
          error := nofun
          result := nofun
          handed := fun _ => ⟨rfl, rfl⟩ } }
  settled :=
    { queue := fun some => absurd rfl some
      reads := nofun
      shutdown := nofun
      responds := nofun
      closes := nofun
      ends := nofun
      awaits := nofun }

/-- When nothing is under way, nothing was left undone. -/
theorem Sound.finished (sound : p.Sound) (idle : p.Idle) : p.Finished := by
  obtain ⟨⟨writes, reads, shutting, ending⟩, settled⟩ := sound
  obtain ⟨frames, unscheduled, mems, unsent, free⟩ := idle
  have unwanted : p.wantSchedule = false := by
    refine Bool.eq_false_iff.mpr fun want => ?_
    have mem := ending.guard.mp (ending.want want)
    rw [frames] at mem
    cases mem
  have pool : p.pool ≠ [] := by
    intro none
    have slots := writes.slots.length_eq
    rw [none, mems] at slots
    cases slots
  have none (sane : p.failing = false) : p.pending = [] := by
    by_contra waits
    rcases settled.queue waits with failing | full | mem
    · exact absurd (sane.symm.trans failing) nofun
    · exact pool full
    · rw [frames] at mem
      cases mem
  exact {
    writes := fun sane => by
      have failed : p.failed = [] := by
        by_contra some
        exact absurd (sane.symm.trans (writes.failed some)) nofun
      have taken : p.taken = [] := by
        unfold Passthru.taken
        rw [mems]
        rfl
      rw [writes.account, (ending.handed sane).1, failed, taken, none sane]
      simp
    reads := fun sane eof => by
      have empty : p.reads = [] := by
        refine (reads.eof eof).2.2.1.resolve_right fun mem => ?_
        rw [frames] at mem
        cases mem
      rw [reads.account, (ending.handed sane).2, empty]
      simp
    shutdown := fun sane shut => by
      have asked : p.shutdownCb = true :=
        (shutting.kept shut).resolve_right fun failing => absurd (sane.symm.trans failing) nofun
      have requested : p.requested = true := by
        rcases settled.shutdown asked with requested | failing | busy | mem
        · exact requested
        · exact absurd (sane.symm.trans failing) nofun
        · exact absurd mems busy
        · rw [frames] at mem
          cases mem
      have complete : p.complete = true := by
        rcases shutting.waits requested with complete | sent | failing
        · exact complete
        · exact absurd (unsent.symm.trans sent) nofun
        · exact absurd (sane.symm.trans failing) nofun
      have responded : p.responded = true :=
        (settled.responds complete).resolve_right fun failing => absurd (sane.symm.trans failing) nofun
      have once := shutting.once
      have cbOnce := shutting.cbOnce
      rw [requested] at once
      rw [responded] at cbOnce
      exact ⟨count_pos_iff.mp (by rw [once]; exact Nat.one_pos),
        count_pos_iff.mp (by rw [cbOnce]; exact Nat.one_pos)⟩
    closes := fun closing => by
      have closed (failing : p.failing = true) : p.closeRequested = true := by
        rcases settled.closes failing with closed | scheduled | want
        · exact closed
        · exact absurd (unscheduled.symm.trans scheduled) nofun
        · exact absurd (unwanted.symm.trans want) nofun
      rcases settled.ends closing with requested | failing | mem | mem
      · exact (ending.close requested).2
      · exact (ending.close (closed failing)).2
      · rw [frames] at mem
        cases mem
      · rw [frames] at mem
        cases mem
    awaited := fun complete hook => by
      rcases settled.awaits complete hook with awaited | scheduled | want
      · exact awaited
      · exact absurd (unscheduled.symm.trans scheduled) nofun
      · exact absurd (unwanted.symm.trans want) nofun }

theorem Sound.contract (sound : p.Sound) : p.Contract := by
  have finished := sound.finished
  obtain ⟨⟨writes, reads, shutting, ending⟩, settled⟩ := sound
  exact {
    writes := by
      rw [writes.account, append_assoc, append_assoc]
      exact prefix_append _ _
    reads := by
      rw [reads.account]
      exact prefix_append _ _
    bytes := writes.bytes
    shutdownOnce := by
      rw [shutting.once]
      exact Bool.toNat_le _
    shutdownAfter := shutting.after
    shutdownCbOnce := by
      rw [shutting.cbOnce]
      exact Bool.toNat_le _
    shutdownCbAfter := shutting.cbAfter
    closes := fun failing => (settled.closes failing).imp_left fun requested => (ending.close requested).2
    awaitOnce := by
      rw [ending.awaits]
      exact Bool.toNat_le _
    awaitAll := fun awaited => by
      obtain ⟨complete, noReads, failed, pending⟩ := ending.awaited awaited
      have taken : p.taken = [] := by
        unfold Passthru.taken
        rw [(ending.complete complete).2.1]
        rfl
      constructor
      · rw [writes.account, failed, taken, pending]
        simp
      · rw [reads.account, noReads, append_nil]
    awaitError := fun hook e reads' writes' mem => by
      rw [ending.result hook e reads' writes' mem]
      have eof : p.eof = true ↔ ∃ id, .read id 0 ∈ p.trace :=
        ⟨fun eof => (reads.eof eof).2.2.2, fun ⟨id, zero⟩ => reads.zero id zero⟩
      have shutdown : p.responded = true ↔ .shutdown ∈ p.trace := by
        rw [← count_pos_iff, shutting.cbOnce]
        cases p.responded <;> simp
      rw [eof, shutdown]
    finished := finished }

/-- libuv takes everything. -/
def calm : UvAnswer where
  write _ := 0
  readStart := 0
  shutdown := 0
  nomem _ := false

/-- A shutdown with nothing in flight. -/
def early : List (PassthruEvent × UvAnswer) := [.shutdown, .shutdownDone 0].map (·, calm)

/-- A write that fails. -/
def broken : List (PassthruEvent × UvAnswer) := [.write 1 [[72, 105]], .writeDone (-32)].map (·, calm)

end Passthru

end Splintermail
