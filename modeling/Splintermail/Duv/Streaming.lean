/-
This file proves the contract of the passthru stream.

Every function of the stream keeps the accounts of the requests; what is left for it to do
is told apart from them, as the functions that change the accounts leave it to
`advance_state`. In a sane run there is never a pending write for `advance_state` to send,
so its loop does nothing, and what remains of it is a shutdown or the end.
-/

import Splintermail.Duv.Contract

namespace Splintermail

open List

namespace PassthruCall

variable (trace more : List PassthruCall)

@[simp] theorem writeCbs_append : writeCbs (trace ++ more) = writeCbs trace ++ writeCbs more :=
  filterMap_append

@[simp] theorem readCbs_append : readCbs (trace ++ more) = readCbs trace ++ readCbs more :=
  filterMap_append

@[simp] theorem given_append : given (trace ++ more) = given trace ++ given more :=
  filterMap_append

@[simp] theorem handedWrites_append :
    handedWrites (trace ++ more) = handedWrites trace ++ handedWrites more := by
  unfold handedWrites
  rw [filterMap_append, flatten_append]

@[simp] theorem handedReads_append :
    handedReads (trace ++ more) = handedReads trace ++ handedReads more := by
  unfold handedReads
  rw [filterMap_append, flatten_append]

@[simp] theorem awaits_append : awaits (trace ++ more) = awaits trace + awaits more :=
  countP_append

variable (call : PassthruCall)

@[simp] theorem writeCbs_nil : writeCbs [] = [] := rfl

@[simp] theorem writeCbs_cons : writeCbs (call :: trace) =
    (match call with | .write id => [id] | _ => []) ++ writeCbs trace := by
  cases call <;> rfl

@[simp] theorem readCbs_nil : readCbs [] = [] := rfl

@[simp] theorem readCbs_cons : readCbs (call :: trace) =
    (match call with | .read id _ => [id] | _ => []) ++ readCbs trace := by
  cases call <;> rfl

@[simp] theorem given_nil : given [] = [] := rfl

@[simp] theorem given_cons : given (call :: trace) =
    (match call with | .uvWrite bufs => [bufs] | _ => []) ++ given trace := by
  cases call <;> rfl

@[simp] theorem handedWrites_nil : handedWrites [] = [] := rfl

@[simp] theorem handedWrites_cons : handedWrites (call :: trace) =
    (match call with | .await _ _ _ writes => writes | _ => []) ++ handedWrites trace := by
  cases call <;> rfl

@[simp] theorem handedReads_nil : handedReads [] = [] := rfl

@[simp] theorem handedReads_cons : handedReads (call :: trace) =
    (match call with | .await _ _ reads _ => reads | _ => []) ++ handedReads trace := by
  cases call <;> rfl

@[simp] theorem awaits_nil : awaits [] = 0 := rfl

@[simp] theorem awaits_cons : awaits (call :: trace) =
    (match call with | .await _ _ _ _ => 1 | _ => 0) + awaits trace := by
  cases call <;> simp [awaits, Nat.add_comm]

theorem split_snoc {trace before after : List PassthruCall} {call last : PassthruCall}
    (split : trace ++ [last] = before ++ call :: after) :
    trace = before ∧ last = call ∨ ∃ rest, trace = before ++ call :: rest := by
  rcases eq_nil_or_concat after with rfl | ⟨rest, final, rfl⟩
  · obtain ⟨same, itself⟩ := append_inj' split rfl
    exact .inl ⟨same, singleton_inj.mp itself⟩
  · refine .inr ⟨rest, ?_⟩
    have split' : trace ++ [last] = (before ++ call :: rest) ++ [final] := by
      rw [split, append_assoc, cons_append]
      simp
    exact (append_inj' split' rfl).1

end PassthruCall

open PassthruCall

namespace Passthru

variable {p : Passthru}

/-! ### Scheduling and failing -/

theorem Ready.schedule (ready : p.Ready) : p.schedule.Ready := by
  unfold Passthru.schedule
  split
  · next guard =>
    exact ⟨{ ready.writes with }, { ready.reads with }, { ready.shutting with },
      { ready.ending with want := fun _ => guard }⟩
  · exact ⟨{ ready.writes with }, { ready.reads with }, { ready.shutting with }, { ready.ending with }⟩

theorem failing_fail (p : Passthru) (e : PassthruError) : (p.fail e).failing = true :=
  Bool.or_true _

theorem closing_of_failing (failing : p.failing = true) : p.closing = true := by
  unfold closing
  rw [failing]
  rfl

theorem Ready.fail (ready : p.Ready) (e : PassthruError) (unended : p.eof = false ∨ p.responded = false) :
    (p.fail e).Ready :=
  ⟨{ ready.writes with failed := fun _ => failing_fail p e },
    { ready.reads with reading := fun _ => .inl (closing_of_failing (failing_fail p e)) },
    { ready.shutting with
      kept := fun _ => .inr (failing_fail p e)
      waits := fun _ => .inr (.inr (failing_fail p e)) },
    { ready.ending with
      close := fun requested =>
        ⟨closing_of_failing (failing_fail p e), (ready.ending.close requested).2⟩
      error := fun _ => unended.imp_right .inl
      handed := fun sane => absurd ((failing_fail p e).symm.trans sane) nofun }⟩

/-! ### The end -/

/-- The handle is closed, once. -/
def closed (p : Passthru) : Passthru :=
  if p.closeRequested then p else { p with closeRequested := true }.call .uvClose

theorem Ready.closed (ready : p.Ready) (closing : p.closing = true) : p.closed.Ready := by
  unfold Passthru.closed
  split
  · exact ready
  · obtain ⟨writes, reads, shutting, ending⟩ := ready
    constructor
    · exact { writes with
        account := by simpa [Passthru.call, taken] using writes.account
        bytes := by simpa [Passthru.call] using writes.bytes
        count := by simpa [Passthru.call] using writes.count }
    · exact { reads with
        account := by simpa [Passthru.call] using reads.account
        reading := fun _ => .inl closing
        eof := by simpa [Passthru.call] using reads.eof
        zero := by simpa [Passthru.call] using reads.zero }
    · exact { shutting with
        once := by simpa [Passthru.call] using shutting.once
        requested := by simpa [Passthru.call] using shutting.requested
        after := fun before after split => by
          rcases split_snoc split with ⟨-, other⟩ | ⟨rest, inside⟩
          · cases other
          · exact shutting.after before rest inside
        cbOnce := by simpa [Passthru.call] using shutting.cbOnce
        cbAfter := fun before after split => by
          rcases split_snoc split with ⟨-, other⟩ | ⟨rest, inside⟩
          · cases other
          · exact shutting.cbAfter before rest inside }
    · exact { ending with
        close := fun _ => ⟨closing, mem_append_right _ (mem_singleton.mpr rfl)⟩
        complete := fun complete => ⟨rfl, (ending.complete complete).2⟩
        awaits := by simpa [Passthru.call] using ending.awaits
        result := by simpa [Passthru.call] using ending.result
        handed := by simpa [Passthru.call, failing] using ending.handed }

theorem finalError_none (p : Passthru) : p.finalError = none ↔ p.e = none ∧ p.canceled = false := by
  unfold finalError
  cases p.e <;> cases p.canceled <;> simp

/-- The stream after the await callback is called. -/
def ended (p : Passthru) (hook : Nat) : Passthru :=
  callback { p with
    e := p.finalError, scheduled := false, awaited := true, reads := [], failed := [], pending := [] }
    (.await hook p.finalError p.reads (p.failed ++ p.pending.map StreamWrite.id)) .await

theorem failing_ended (p : Passthru) (hook : Nat) : (p.ended hook).failing = p.failing := by
  show (p.canceled || p.finalError.isSome) = (p.canceled || p.e.isSome)
  unfold finalError
  cases p.e <;> cases p.canceled <;> rfl

theorem closing_ended (p : Passthru) (hook : Nat) : (p.ended hook).closing = p.closing := by
  show ((p.ended hook).failing || (p.eof && p.responded)) = (p.failing || (p.eof && p.responded))
  rw [failing_ended]

theorem respondAwait_eq (hook : Nat) (left : p.failing = false →
    p.reads = [] ∧ p.failed = [] ∧ p.pending = []) : p.respondAwait hook = .ok (p.ended hook) := by
  unfold respondAwait
  dsimp only
  have failing : Passthru.failing { p with e := p.finalError, scheduled := false, awaited := true } =
      p.failing := failing_ended p hook
  rw [failing]
  cases sane : p.failing with
  | true => rfl
  | false =>
    obtain ⟨reads, failed, pending⟩ := left sane
    rw [reads, failed, pending]
    unfold ended
    rw [reads, failed, pending]
    rfl

/-- Before the await callback nothing was handed back. -/
theorem Ending.unawaited (ending : p.Ending) (open' : p.awaited = false) :
    handedWrites p.trace = [] ∧ handedReads p.trace = [] := by
  have none : PassthruCall.awaits p.trace = 0 := by
    rw [ending.awaits, open']
    rfl
  unfold PassthruCall.awaits at none
  rw [countP_eq_zero] at none
  constructor
  · unfold handedWrites
    rw [filterMap_eq_nil_iff.mpr fun call mem => ?_]
    · rfl
    · cases call with
      | await hook e reads writes => exact absurd rfl (none _ mem)
      | _ => rfl
  · unfold handedReads
    rw [filterMap_eq_nil_iff.mpr fun call mem => ?_]
    · rfl
    · cases call with
      | await hook e reads writes => exact absurd rfl (none _ mem)
      | _ => rfl

theorem Ending.no_await (ending : p.Ending) (open' : p.awaited = false) (hook : Nat)
    (e : Option PassthruError) (reads writes : List Nat) : .await hook e reads writes ∉ p.trace := by
  intro mem
  have none := ending.awaits
  rw [open'] at none
  unfold PassthruCall.awaits at none
  exact countP_eq_zero.mp none _ mem rfl

theorem Ready.ended (ready : p.Ready) (closing : p.closing = true) (complete : p.closeComplete = true)
    (open' : p.awaited = false) (frames : p.frames = [] ∨ p.frames = [.sched])
    (left : p.failing = false → p.reads = [] ∧ p.failed = [] ∧ p.pending = []) (hook : Nat) :
    (p.ended hook).Ready := by
  obtain ⟨writes, reads, shutting, ending⟩ := ready
  have failing := failing_ended p hook
  obtain ⟨-, mems, free⟩ := ending.complete complete
  have alone := ending.unawaited open'
  have empty : p.taken = [] := by
    unfold taken
    rw [mems]
    rfl
  constructor
  · exact { writes with
      account := by
        have account := writes.account
        rw [alone.1, empty] at account
        simpa [Passthru.ended, callback, taken, mems, alone.1] using account
      bytes := by simpa [Passthru.ended, callback] using writes.bytes
      count := fun again => by cases again
      failed := fun some => absurd rfl some }
  · exact { reads with
      account := by
        have account := reads.account
        rw [alone.2] at account
        simpa [Passthru.ended, callback, alone.2] using account
      allocated := fun allocated => absurd (free.symm.trans allocated) nofun
      reading := fun _ => .inl ((closing_ended p hook).trans closing)
      ends := fun mem => by
        have mem' : PassthruFrame.eof ∈ PassthruFrame.await :: p.frames := mem
        rcases frames with none | one
        · rw [none] at mem'
          simp at mem'
        · rw [one] at mem'
          simp at mem'
      eof := fun eof => by
        obtain ⟨stopped, -, -, id, mem⟩ := reads.eof eof
        exact ⟨stopped, free, .inl rfl, id, mem_append_left _ mem⟩
      zero := by simpa [Passthru.ended, callback] using reads.zero }
  · exact { shutting with
      kept := by
        rw [failing]
        exact shutting.kept
      waits := by
        rw [failing]
        exact shutting.waits
      once := by simpa [Passthru.ended, callback] using shutting.once
      requested := by simpa [Passthru.ended, callback] using shutting.requested
      after := fun before after split => by
        rcases split_snoc split with ⟨-, other⟩ | ⟨rest, inside⟩
        · cases other
        · exact shutting.after before rest inside
      cbOnce := by simpa [Passthru.ended, callback] using shutting.cbOnce
      cbAfter := fun before after split => by
        rcases split_snoc split with ⟨-, other⟩ | ⟨rest, inside⟩
        · cases other
        · exact shutting.cbAfter before rest inside }
  · have none_iff : p.finalError = none ↔ p.eof = true ∧ p.responded = true ∧ p.canceled = false := by
      rw [finalError_none]
      constructor
      · rintro ⟨none, uncanceled⟩
        unfold Passthru.closing Passthru.failing at closing
        rw [none, uncanceled] at closing
        obtain ⟨eof, responded⟩ := Bool.and_eq_true_iff.mp closing
        exact ⟨eof, responded, uncanceled⟩
      · rintro ⟨eof, responded, uncanceled⟩
        refine ⟨?_, uncanceled⟩
        cases error : p.e with
        | none => rfl
        | some e =>
          rcases ending.error (by rw [error]; rfl) with other | other | other
          · exact absurd (eof.symm.trans other) nofun
          · exact absurd (responded.symm.trans other) nofun
          · exact absurd (uncanceled.symm.trans other) nofun
    exact { ending with
      framed := by
        rcases frames with none | one
        · show Framed (.await :: p.frames)
          rw [none]
          exact .one _
        · show Framed (.await :: p.frames)
          rw [one]
          exact .within _ (.inr rfl)
      guard := by simpa [Passthru.ended, callback] using ending.guard
      close := fun requested => by
        exact ⟨(closing_ended p hook).trans closing, mem_append_left _ (ending.close requested).2⟩
      awaited := fun _ => ⟨complete, rfl, rfl, rfl⟩
      awaits := by
        have count := ending.awaits
        rw [open'] at count
        simpa [Passthru.ended, callback] using count
      error := fun error => by
        have error' : p.finalError.isSome = true := error
        cases canceled : p.canceled with
        | true => exact .inr (.inr canceled)
        | false =>
          have same : p.finalError = p.e := by
            unfold finalError
            rw [canceled, Bool.and_false]
            rfl
          rw [same] at error'
          refine (ending.error error').imp_right (Or.imp_right fun other => ?_)
          exact absurd (canceled.symm.trans other) nofun
      result := fun hook' e reads' writes' mem => by
        rcases mem_append.mp mem with before | last
        · exact ending.result hook' e reads' writes' before
        · have last' := mem_singleton.mp last
          cases last'
          exact none_iff
      handed := by
        rw [failing]
        intro sane
        obtain ⟨none, failed, pending⟩ := left sane
        simp [Passthru.ended, callback, none, failed, pending, alone] }

/-- A write that waits does so for memory, or for the end of the stream. -/
def Queued (p : Passthru) : Prop := p.pending ≠ [] → p.failing = true ∨ p.pool = []

theorem Ready.settled_of_closing (ready : p.Ready) (closing : p.closing = true)
    (requested : p.closeRequested = true) (queued : p.Queued)
    (awaits : p.closeComplete = true → p.awaitCb ≠ none → p.awaited = true) : p.Settled := by
  have past : p.failing = true ∨ p.eof = true ∧ p.responded = true :=
    (Bool.or_eq_true_iff.mp closing).imp_right Bool.and_eq_true_iff.mp
  exact {
    queue := fun waits => (queued waits).imp_right .inl
    reads := fun _ => .inl requested
    shutdown := fun _ => past.symm.imp
      (fun both => (ready.shutting.complete (ready.shutting.responded both.2)).1) .inl
    responds := fun _ => past.symm.imp_left And.right
    closes := fun _ => .inl requested
    ends := fun _ => .inl requested
    awaits := fun complete hook => .inl (awaits complete hook) }

theorem close_eq (p : Passthru) : p.close = if p.closed.allocated then .ok p.closed
    else if p.closed.inflight ≠ 0 then .ok p.closed
    else if !p.closed.closeComplete then .ok p.closed
    else
      match p.closed.awaitCb with
      | none => .ok p.closed
      | some hook => if p.closed.awaited then .ok p.closed else p.closed.respondAwait hook := rfl

theorem close_sound (ready : p.Ready) (closing : p.closing = true)
    (frames : p.frames = [] ∨ p.frames = [.sched]) (queued : p.Queued) :
    Outcome.Sat p.close Sound fun _ => False := by
  obtain ⟨q, same, ready', requested, closing', frames', queued'⟩ : ∃ q : Passthru, q = p.closed ∧
      q.Ready ∧ q.closeRequested = true ∧ q.closing = true ∧ (q.frames = [] ∨ q.frames = [.sched]) ∧
        q.Queued := by
    refine ⟨_, rfl, ready.closed closing, ?_⟩
    unfold Passthru.closed
    split
    · next requested => exact ⟨requested, closing, frames, queued⟩
    · exact ⟨rfl, closing, frames, queued⟩
  rw [close_eq, ← same]
  have settled := ready'.settled_of_closing closing' requested queued'
  split
  · next allocated =>
    refine ⟨ready', settled fun complete => ?_⟩
    cases (ready'.ending.complete complete).2.2.symm.trans allocated
  · split
    · next busy =>
      refine ⟨ready', settled fun complete => absurd ?_ busy⟩
      rw [ready'.writes.inflight, (ready'.ending.complete complete).2.1]
      rfl
    · split
      · next open' =>
        refine ⟨ready', settled fun complete => ?_⟩
        rw [complete] at open'
        cases open'
      · next complete =>
        have complete : q.closeComplete = true := by
          cases done : q.closeComplete with
          | true => rfl
          | false => exact absurd (by rw [done]; rfl) complete
        split
        · next none => exact ⟨ready', settled fun _ hook => absurd none hook⟩
        · next hook _ =>
          split
          · next awaited => exact ⟨ready', settled fun _ _ => awaited⟩
          · next open' =>
            have open' : q.awaited = false := Bool.eq_false_iff.mpr open'
            have left : q.failing = false → q.reads = [] ∧ q.failed = [] ∧ q.pending = [] := by
              intro sane
              have eof : q.eof = true := by
                unfold Passthru.closing at closing'
                rw [sane] at closing'
                exact (Bool.and_eq_true_iff.mp closing').1
              refine ⟨?_, ?_, ?_⟩
              · refine (ready'.reads.eof eof).2.2.1.resolve_right fun inside => ?_
                rcases frames' with none | one
                · rw [none] at inside
                  cases inside
                · rw [one] at inside
                  cases mem_singleton.mp inside
              · by_contra some
                cases (ready'.writes.failed some).symm.trans sane
              · by_contra waits
                have empty := (queued' waits).resolve_left fun failing =>
                  by cases failing.symm.trans sane
                have slots := ready'.writes.slots.length_eq
                rw [empty, (ready'.ending.complete complete).2.1] at slots
                cases slots
            rw [respondAwait_eq hook left]
            have ready'' := ready'.ended closing' complete open' frames' left hook
            refine ⟨ready'', ready''.settled_of_closing ?_ requested (fun waits => absurd rfl waits)
              fun _ _ => rfl⟩
            unfold Passthru.closing at closing' ⊢
            rw [failing_ended]
            exact closing'

/-! ### The shutdown -/

theorem submitLoop_of_queued (uv : UvAnswer) (waits : p.pending = [] ∨ p.pool = []) :
    submitLoop uv p.pending p = (p, false) := by
  rcases waits with none | none
  · rw [none]
    show ({ p with pending := [] }, false) = (p, false)
    rw [← none]
  · cases pending : p.pending with
    | nil =>
      show ({ p with pending := [] }, false) = (p, false)
      rw [← pending]
    | cons w rest =>
      unfold submitLoop
      rw [none]
      dsimp only
      rw [← pending, ← none]

theorem taken_length (known : ∀ mem ∈ p.mems, p.req mem ≠ none) : p.taken.length = p.mems.length := by
  unfold taken
  generalize p.mems = mems at known
  induction mems with
  | nil => rfl
  | cons mem rest ih =>
    have later := ih fun other mem => known other (.tail _ mem)
    cases request : p.req mem with
    | none => exact absurd request (known mem mem_cons_self)
    | some id => rw [filterMap_cons_some request, length_cons, length_cons, later]

section

variable (ready : p.Ready) (open' : p.closing = false)

include open'

theorem not_failing : p.failing = false := by
  unfold closing at open'
  exact (Bool.or_eq_false_iff.mp open').1

include ready

theorem Ready.unclosed : p.closeRequested = false ∧ p.closeComplete = false ∧ p.awaited = false ∧
    p.failed = [] ∧ handedWrites p.trace = [] := by
  have requested : p.closeRequested = false := by
    refine Bool.eq_false_iff.mpr fun requested => ?_
    exact absurd ((ready.ending.close requested).1.symm.trans open') nofun
  have complete : p.closeComplete = false := by
    refine Bool.eq_false_iff.mpr fun complete => ?_
    exact absurd ((ready.ending.complete complete).1.symm.trans requested) nofun
  refine ⟨requested, complete, ?_, ?_, (ready.ending.handed (not_failing open')).1⟩
  · refine Bool.eq_false_iff.mpr fun awaited => ?_
    exact absurd ((ready.ending.awaited awaited).1.symm.trans complete) nofun
  · by_contra some
    exact absurd ((ready.writes.failed some).symm.trans (not_failing open')) nofun

theorem Ready.all_given (none : p.pending = []) :
    given p.trace = p.acceptedWrites.map StreamWrite.bufs := by
  obtain ⟨-, -, awaited, failed, handed⟩ := ready.unclosed open'
  have count := ready.writes.count awaited
  have account := congrArg List.length ready.writes.account
  refine ready.writes.bytes.eq_of_length ?_
  rw [failed] at count account
  rw [none, handed] at account
  simp only [length_map, length_append, length_nil, map_nil,
    taken_length ready.writes.known] at account
  rw [length_map, count, account, length_nil]
  omega

theorem Ready.all_called (none : p.pending = []) (mems : p.mems = []) :
    writeCbs p.trace = p.acceptedWrites.map StreamWrite.id := by
  obtain ⟨-, -, -, failed, handed⟩ := ready.unclosed open'
  have taken : p.taken = [] := by
    unfold Passthru.taken
    rw [mems]
    rfl
  rw [ready.writes.account, none, failed, handed, taken]
  simp

/-- A stream that is not closing has nothing to do, apart from the shutdown. -/
theorem Ready.settled_of_open (queued : p.Queued)
    (shutdown : p.shutdownCb = true → p.requested = true ∨ p.mems ≠ [])
    (responds : p.complete = true → p.responded = true) : p.Settled where
  queue waits := (queued waits).imp_right .inl
  reads reading := (ready.reads.reading reading).imp_left fun closing =>
    absurd (closing.symm.trans open') nofun
  shutdown asked := (shutdown asked).imp_right fun busy => .inr (.inl busy)
  responds complete := .inl (responds complete)
  closes failing := absurd (failing.symm.trans (not_failing open')) nofun
  ends closing := absurd (closing.symm.trans open') nofun
  awaits complete := absurd (complete.symm.trans (ready.unclosed open').2.1) nofun

end

/-- The stream after it has called `uv_shutdown`. -/
def asked (p : Passthru) : Passthru := { p with requested := true }.call .uvShutdown

theorem Ready.asked (ready : p.Ready) (open' : p.closing = false) (shutdownCb : p.shutdownCb = true)
    (none : p.pending = []) (unasked : p.requested = false) :
    Ready { p.asked with shutdownReq := true } := by
  have all := ready.all_given open' none
  have incomplete : p.complete = false := by
    refine Bool.eq_false_iff.mpr fun complete => ?_
    exact absurd ((ready.shutting.complete complete).1.symm.trans unasked) nofun
  obtain ⟨writes, reads, shutting, ending⟩ := ready
  constructor
  · exact { writes with
      account := by simpa [Passthru.asked, Passthru.call, taken] using writes.account
      bytes := by simpa [Passthru.asked, Passthru.call] using writes.bytes
      count := by simpa [Passthru.asked, Passthru.call] using writes.count }
  · exact { reads with
      account := by simpa [Passthru.asked, Passthru.call] using reads.account
      eof := by simpa [Passthru.asked, Passthru.call] using reads.eof
      zero := by simpa [Passthru.asked, Passthru.call] using reads.zero }
  · exact { shutting with
      once := by
        have once := shutting.once
        rw [unasked] at once
        simpa [Passthru.asked, Passthru.call] using once
      requested := fun _ => ⟨shutdownCb, by simpa [Passthru.asked, Passthru.call] using all⟩
      after := fun before after split => by
        rcases split_snoc split with ⟨same, -⟩ | ⟨rest, inside⟩
        · rw [← same]
          exact all
        · exact shutting.after before rest inside
      sent := fun _ => ⟨rfl, incomplete⟩
      complete := fun complete => absurd (complete.symm.trans incomplete) nofun
      waits := fun _ => .inr (.inl rfl)
      cbOnce := by simpa [Passthru.asked, Passthru.call] using shutting.cbOnce
      cbAfter := fun before after split => by
        rcases split_snoc split with ⟨-, other⟩ | ⟨rest, inside⟩
        · cases other
        · exact shutting.cbAfter before rest inside }
  · exact { ending with
      close := fun requested => (ending.close requested).imp_right (mem_append_left _)
      awaits := by simpa [Passthru.asked, Passthru.call] using ending.awaits
      result := by simpa [Passthru.asked, Passthru.call] using ending.result
      handed := by simpa [Passthru.asked, Passthru.call, failing] using ending.handed }

/-- The stream after the shutdown callback is called. -/
def answered (p : Passthru) : Passthru := { p with responded := true }.callback .shutdown .shutdown

theorem Ready.answered (ready : p.Ready) (open' : p.closing = false) (complete : p.complete = true)
    (none : p.pending = []) (unanswered : p.responded = false)
    (frames : p.frames = [] ∨ p.frames = [.sched]) : p.answered.Ready := by
  have all := ready.all_called open' none (ready.shutting.complete complete).2
  have unclosed := ready.unclosed open'
  have no_await := ready.ending.no_await unclosed.2.2.1
  obtain ⟨writes, reads, shutting, ending⟩ := ready
  constructor
  · exact { writes with
      account := by simpa [Passthru.answered, callback, taken] using writes.account
      bytes := by simpa [Passthru.answered, callback] using writes.bytes
      count := by simpa [Passthru.answered, callback] using writes.count }
  · exact { reads with
      account := by simpa [Passthru.answered, callback] using reads.account
      reading := fun reading => by
        refine .inr (((reads.reading reading).resolve_left fun closing => ?_).imp_right
          (Or.imp (.tail _) (.tail _)))
        exact absurd (closing.symm.trans open') nofun
      ends := fun mem => by
        have other : PassthruFrame.eof ≠ .shutdown := nofun
        exact reads.ends (mem_of_ne_of_mem other mem)
      eof := fun eof => by
        obtain ⟨stopped, free, empty, id, mem⟩ := reads.eof eof
        exact ⟨stopped, free, empty.imp_right (.tail _), id, mem_append_left _ mem⟩
      zero := by simpa [Passthru.answered, callback] using reads.zero }
  · exact { shutting with
      once := by simpa [Passthru.answered, callback] using shutting.once
      requested := by simpa [Passthru.answered, callback] using shutting.requested
      after := fun before after split => by
        rcases split_snoc split with ⟨-, other⟩ | ⟨rest, inside⟩
        · cases other
        · exact shutting.after before rest inside
      cbOnce := by
        have once := shutting.cbOnce
        rw [unanswered] at once
        simpa [Passthru.answered, callback] using once
      responded := fun _ => complete
      cbAfter := fun before after split => by
        rcases split_snoc split with ⟨same, -⟩ | ⟨rest, inside⟩
        · rw [← same]
          exact all
        · exact shutting.cbAfter before rest inside }
  · exact { ending with
      framed := by
        show Framed (.shutdown :: p.frames)
        rcases frames with none | one
        · rw [none]
          exact .one _
        · rw [one]
          exact .within _ (.inl rfl)
      guard := by simpa [Passthru.answered, callback] using ending.guard
      close := fun requested => absurd (requested.symm.trans unclosed.1) nofun
      awaits := by simpa [Passthru.answered, callback] using ending.awaits
      error := fun error => by
        have sane := not_failing open'
        unfold failing at sane
        exact absurd (error.symm.trans (Bool.or_eq_false_iff.mp sane).2) nofun
      result := fun hook e reads writes mem => by
        rcases mem_append.mp mem with before | last
        · exact absurd before (no_await hook e reads writes)
        · exact absurd (mem_singleton.mp last) nofun
      handed := by simpa [Passthru.answered, callback, failing] using ending.handed }

/-- The shutdown, when nothing is left to send. -/
theorem advanceShutdown_eq (shutdownCb : p.shutdownCb = true) (unanswered : p.responded = false)
    (none : p.pending = []) (uv : UvAnswer) : p.advanceShutdown uv =
      if p.requested then .ok (if p.complete then p.answered else p)
      else if uv.shutdown < 0 then (p.asked.fail (.uv uv.shutdown)).close
      else .ok (if p.complete then answered { p.asked with shutdownReq := true }
        else { p.asked with shutdownReq := true }) := by
  have first : ¬ (!p.shutdownCb || p.responded) = true := by
    rw [shutdownCb, unanswered]
    nofun
  have second : ¬ (!p.pending.isEmpty) = true := by
    rw [none]
    nofun
  unfold advanceShutdown
  rw [if_neg first, if_neg second]
  cases requested : p.requested with
  | true => cases complete : p.complete <;> simp [answered, complete]
  | false =>
    by_cases refused : uv.shutdown < 0
    · simp [refused, asked]
    · cases complete : p.complete <;> simp [refused, asked, answered, complete, Passthru.call]

theorem advanceShutdown_sound (ready : p.Ready) (open' : p.closing = false)
    (frames : p.frames = [] ∨ p.frames = [.sched]) (queued : p.Queued) (uv : UvAnswer) :
    Outcome.Sat (p.advanceShutdown uv) Sound fun _ => False := by
  have sane : p.failing = false := not_failing open'
  have unclosed := ready.unclosed open'
  have requests (complete : p.complete = true) : p.requested = true :=
    (ready.shutting.complete complete).1
  by_cases asked : p.shutdownCb = true
  swap
  · have idle : p.advanceShutdown uv = .ok p := by
      unfold advanceShutdown
      rw [Bool.eq_false_iff.mpr asked]
      rfl
    rw [idle]
    refine ⟨ready, ready.settled_of_open open' queued (fun asks => absurd asks asked) fun complete => ?_⟩
    exact absurd (ready.shutting.requested (requests complete)).1 asked
  cases unanswered : p.responded with
  | true =>
    have idle : p.advanceShutdown uv = .ok p := by
      unfold advanceShutdown
      rw [unanswered, Bool.or_true]
      rfl
    rw [idle]
    refine ⟨ready, ready.settled_of_open open' queued (fun _ => .inl ?_) fun _ => unanswered⟩
    exact requests (ready.shutting.responded unanswered)
  | false =>
    by_cases none : p.pending = []
    swap
    · -- what waits does so for memory that libuv has
      have mems : p.mems ≠ [] := by
        intro none'
        have slots := ready.writes.slots.length_eq
        have full : p.pool = [] :=
          (queued none).resolve_left fun failing => absurd (failing.symm.trans sane) nofun
        rw [full, none'] at slots
        cases slots
      have idle : p.advanceShutdown uv = .ok p := by
        unfold advanceShutdown
        rw [asked, unanswered]
        cases waits : p.pending with
        | nil => exact absurd waits none
        | cons w rest => rfl
      rw [idle]
      refine ⟨ready, ready.settled_of_open open' queued (fun _ => .inr mems) fun complete => ?_⟩
      exact absurd (ready.shutting.complete complete).2 mems
    rw [advanceShutdown_eq asked unanswered none]
    cases requested : p.requested with
    | true =>
      rw [if_pos rfl]
      cases complete : p.complete with
      | false =>
        refine ⟨ready, ready.settled_of_open open' queued (fun _ => .inl requested) fun completes => ?_⟩
        exact absurd (complete.symm.trans completes) nofun
      | true =>
        refine ⟨ready.answered open' complete none unanswered frames, {
          queue := fun waits => absurd none waits
          reads := fun reading => by
            refine .inr (((ready.reads.reading reading).resolve_left fun closing => ?_).imp_right
              (Or.imp (.tail _) (.tail _)))
            exact absurd (closing.symm.trans open') nofun
          shutdown := fun _ => .inl requested
          responds := fun _ => .inl rfl
          closes := fun (failing : p.failing = true) => absurd (failing.symm.trans sane) nofun
          ends := fun _ => .inr (.inr (.inl mem_cons_self))
          awaits := fun (closed : p.closeComplete = true) =>
            absurd (closed.symm.trans unclosed.2.1) nofun }⟩
    | false =>
      rw [if_neg nofun]
      have ready' := ready.asked open' asked none requested
      have incomplete : p.complete = false :=
        Bool.eq_false_iff.mpr fun complete => absurd ((requests complete).symm.trans requested) nofun
      by_cases refused : uv.shutdown < 0
      · rw [if_pos refused]
        have ready'' : (p.asked.fail (.uv uv.shutdown)).Ready := by
          obtain ⟨writes, reads, shutting, ending⟩ :=
            ready'.fail (.uv uv.shutdown) (.inr unanswered)
          have idle : p.shutdownReq = false := by
            refine Bool.eq_false_iff.mpr fun sent => ?_
            exact absurd ((ready.shutting.sent sent).1.symm.trans requested) nofun
          exact ⟨{ writes with }, { reads with }, { shutting with
              sent := fun (sent : p.shutdownReq = true) => absurd (sent.symm.trans idle) nofun
              waits := fun _ => .inr (.inr (failing_fail _ _)) },
            { ending with }⟩
        exact close_sound ready'' (closing_of_failing (failing_fail _ _)) frames
          fun waits => absurd none waits
      · rw [if_neg refused, incomplete]
        refine ⟨ready', ready'.settled_of_open open' (fun waits => absurd none waits)
          (fun _ => .inl rfl) fun (complete : p.complete = true) => ?_⟩
        exact absurd (complete.symm.trans incomplete) nofun

/-- `advance_state`, where it has no write to send. -/
theorem advance_sound (ready : p.Ready) (frames : p.frames = [] ∨ p.frames = [.sched])
    (queued : p.Queued) (uv : UvAnswer) : Outcome.Sat (p.advanceState uv) Sound fun _ => False := by
  unfold advanceState
  split
  · next closing => exact close_sound ready closing frames queued
  · next open' =>
    have open' := Bool.eq_false_iff.mpr open'
    have waits : p.pending = [] ∨ p.pool = [] := by
      by_cases none : p.pending = []
      · exact .inl none
      · exact .inr ((queued none).resolve_left fun failing =>
          absurd (failing.symm.trans (not_failing open')) nofun)
    rw [submitLoop_of_queued uv waits]
    exact advanceShutdown_sound ready open' frames queued uv

end Passthru

end Splintermail
