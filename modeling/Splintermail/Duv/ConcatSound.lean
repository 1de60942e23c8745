/-
This file states what a user of `rstream_concat` may rely on, and proves it for the runs that
keep clear of three defects.

A read that a base calls back while the concat is closing is lost, a read that a base
returns keeps the callback of the concat, and a callback that is given when there is nothing
left to wait for is not called. Where none of this happens, every read is accounted for: it was
called back, or a base has it, or it waits, in the order in which the reads were made.
-/

import Splintermail.Duv.Concat
import Mathlib.Data.List.Range

namespace Splintermail

open List
open Outcome (Sat)

namespace ConcatCall

/-- The reads that were called back, with the callbacks that were called. -/
def calledReads (trace : List ConcatCall) : List ConcatRead :=
  trace.filterMap fun
    | .read request _ => some request
    | _ => none

/-- The bytes that were delivered. -/
def delivered (trace : List ConcatCall) : Bytes :=
  trace.flatMap fun
    | .read _ buf => buf
    | _ => []

/-- The reads that were returned. -/
def handed (trace : List ConcatCall) : List ConcatRead :=
  trace.flatMap fun
    | .await _ _ reads => reads
    | _ => []

/-- The number of await callbacks. -/
def awaits (trace : List ConcatCall) : Nat :=
  trace.countP fun
    | .await _ _ _ => true
    | _ => false

variable {trace : List ConcatCall} {read : ConcatRead} {buf : Bytes}

@[simp] theorem calledReads_read :
    calledReads (trace ++ [.read read buf]) = calledReads trace ++ [read] := by simp [calledReads]

@[simp] theorem delivered_read :
    delivered (trace ++ [.read read buf]) = delivered trace ++ buf := by simp [delivered]

@[simp] theorem handed_read : handed (trace ++ [.read read buf]) = handed trace := by simp [handed]

@[simp] theorem awaits_read : awaits (trace ++ [.read read buf]) = awaits trace := by simp [awaits]

end ConcatCall

open ConcatCall

namespace RstreamConcat

/-! ### What is promised -/

/-- What the bases deliver in all. -/
def all (c : RstreamConcat) : Bytes := (range c.nbases).flatMap c.contents

/-- The contract of `rstream_i`, for a concatenation. -/
structure Contract (c : RstreamConcat) : Prop where
  bytes : delivered c.trace <+: c.all
  ends : ∀ before read after, c.trace = before ++ .read read [] :: after → delivered before = c.all
  reads : calledReads c.trace ++ handed c.trace <+: c.accepted
  all : c.awaited = true → calledReads c.trace ++ handed c.trace = c.accepted
  once : awaits c.trace ≤ 1
  comes : c.awaitCb ≠ none → c.closing = true → c.nawaited = c.nbases → c.scheduled = false →
    awaits c.trace = 1
  answered : c.failing = false → c.scheduled = false → c.lent = none →
    calledReads c.trace = c.accepted

/-- No base calls back a read while the concat is closing, no base returns one, and no callback is
given when nothing is left to wait for. -/
def Clear (c : RstreamConcat) : ConcatEvent × List (List ConcatUse) → Prop
  | (.baseRead _, _) => c.closing = false
  | (.baseAwait idx _, _) => ∀ held ∈ c.lent, held.1 ≠ idx
  | (.use (.await _), _) =>
    c.closing = false ∨ c.nawaited ≠ c.nbases ∨ c.scheduled = true ∨ c.awaited = true
  | _ => True

instance (c : RstreamConcat) (event : ConcatEvent × List (List ConcatUse)) :
    Decidable (c.Clear event) :=
  match event with
  | (.baseRead _, _) => inferInstanceAs (Decidable (_ = _))
  | (.baseAwait _ _, _) => inferInstanceAs (Decidable (∀ held ∈ _, _))
  | (.use (.await _), _) => inferInstanceAs (Decidable (_ ∨ _))
  | (.use (.read _ _ _), _) | (.use .cancel, _) | (.scheduled, _) => isTrue trivial

/-! ### The invariant -/

/-- The reads that are with a base, or on the way back from it. -/
def inHand (c : RstreamConcat) : List ConcatRead :=
  (c.returned.map Prod.fst).toList ++
    (c.lent.map fun held => { held.2 with cb := c.originalReadCb }).toList

/-- The bytes that are on the way. -/
def onTheWay (c : RstreamConcat) : Bytes := (c.returned.map Prod.snd).getD []

/-- How many bases have come to their ends. -/
def passed (c : RstreamConcat) : Nat := if c.baseEof then c.baseIdx + 1 else c.baseIdx

/-- The reads, one behind the other. -/
structure Accounted (c : RstreamConcat) : Prop where
  account : c.awaited = false → c.accepted = calledReads c.trace ++ c.inHand ++ c.reads
  ended : c.awaited = true → c.accepted = calledReads c.trace ++ handed c.trace ∧
    awaits c.trace = 1 ∧ c.nawaited = c.nbases ∧ c.reads = [] ∧ c.scheduled = false ∧
    c.closing = true
  unended : c.awaited = false → awaits c.trace = 0 ∧ handed c.trace = []
  unhanded : c.failing = false → handed c.trace = []
  reading : c.reading = c.lent.isSome
  lent : ∀ held ∈ c.lent, held.1 = c.baseIdx ∧ c.baseIdx < c.nbases ∧
    (c.bases c.baseIdx).awaited = false ∧ c.returned = none ∧ c.baseEof = false

/-- The bytes, base by base. -/
structure Ordered (c : RstreamConcat) : Prop where
  idx : c.passed ≤ c.nbases
  eof : c.eof = true → c.baseIdx = c.nbases
  eofs : ∀ idx, (c.bases idx).eof = true ↔ idx < c.passed
  data : ∃ got, delivered c.trace ++ c.onTheWay = (range c.baseIdx).flatMap c.contents ++ got ∧
    got ++ (c.bases c.baseIdx).rest = c.contents c.baseIdx
  fresh : ∀ idx, c.baseIdx < idx → (c.bases idx).rest = c.contents idx
  drained : c.baseEof = true → (c.bases c.baseIdx).rest = [] ∧ ∃ read, c.returned = some (read, [])
  some : c.baseEof = false → ∀ read buf, c.returned = some (read, buf) →
    buf ≠ [] ∧ c.baseIdx < c.nbases
  outside : ∀ idx, c.nbases ≤ idx → c.contents idx = []
  ends : ∀ before read after, c.trace = before ++ .read read [] :: after → delivered before = c.all

/-- The bases, and why they are canceled. -/
structure Holding (c : RstreamConcat) : Prop where
  counted : c.nawaited = (range c.nbases).countP fun idx => (c.bases idx).awaited
  early : ∀ idx, (c.bases idx).awaited = true → (c.bases idx).eof = false → c.failing = true
  error : c.e = some .canceled → c.canceled = true
  canceled : ∀ idx, (c.bases idx).canceled = true → c.failing = true
  flagged : ∀ idx, c.basesCanceled idx = true → (c.bases idx).awaited = true ∨ c.failing = true

structure Core (c : RstreamConcat) : Prop extends Accounted c, Ordered c, Holding c

/-- Between two events nothing is on the way back, and what should have been called was. -/
structure Sound (c : RstreamConcat) : Prop extends Core c where
  returned : c.returned = none
  baseEof : c.baseEof = false
  comes : c.awaitCb ≠ none → c.closing = true → c.nawaited = c.nbases → c.scheduled = false →
    c.awaited = true
  finished : c.eof = true → c.reads = []
  answered : c.failing = false → c.scheduled = false → c.lent = none → c.reads = []

variable {c : RstreamConcat}

/-! ### What the user does -/

/-- What the user's calls leave alone. -/
structure Kept (c next : RstreamConcat) : Prop where
  awaited : next.awaited = c.awaited
  eof : next.eof = c.eof
  nbases : next.nbases = c.nbases
  nawaited : next.nawaited = c.nawaited
  baseIdx : next.baseIdx = c.baseIdx
  baseEof : next.baseEof = c.baseEof
  reading : next.reading = c.reading
  returned : next.returned = c.returned
  lent : next.lent = c.lent
  trace : next.trace = c.trace
  reads : c.eof = true → next.reads = c.reads
  closing : c.closing = true → next.closing = true

theorem Kept.refl (c : RstreamConcat) : Kept c c := by
  constructor <;> simp

theorem Kept.trans {middle next : RstreamConcat} (first : Kept c middle)
    (second : Kept middle next) : Kept c next where
  awaited := second.awaited.trans first.awaited
  eof := second.eof.trans first.eof
  nbases := second.nbases.trans first.nbases
  nawaited := second.nawaited.trans first.nawaited
  baseIdx := second.baseIdx.trans first.baseIdx
  baseEof := second.baseEof.trans first.baseEof
  reading := second.reading.trans first.reading
  returned := second.returned.trans first.returned
  lent := second.lent.trans first.lent
  trace := second.trace.trans first.trace
  reads := fun eof => (second.reads (first.eof.trans eof)).trans (first.reads eof)
  closing := fun closing => second.closing (first.closing closing)

section

variable (c : RstreamConcat)

theorem use_kept (use : ConcatUse) : Kept c (c.use use) := by
  cases use with
  | read id hook size =>
    rw [RstreamConcat.use, concatRead]
    split_ifs with checks
    · simp only [Bool.and_eq_true, Bool.not_eq_true', decide_eq_true_eq] at checks
      constructor
      case reads => simp [checks.2]
      all_goals simp [closing, failing]
    · exact Kept.refl c
  | cancel =>
    rw [RstreamConcat.use, concatCancel]
    dsimp only
    split_ifs
    · constructor <;> simp [closing, failing]
    · constructor <;> simp [closing, failing, cancelBases]
  | await hook => constructor <;> simp [RstreamConcat.use, concatAwait, closing, failing]

theorem cancelBases_bases (idx : Nat) : c.cancelBases.bases idx =
    if c.basesCanceled idx then c.bases idx else { c.bases idx with canceled := true } := rfl

@[simp] theorem cancelBases_rest (idx : Nat) :
    (c.cancelBases.bases idx).rest = (c.bases idx).rest := by
  rw [cancelBases_bases]
  split_ifs <;> rfl

@[simp] theorem cancelBases_eof (idx : Nat) :
    (c.cancelBases.bases idx).eof = (c.bases idx).eof := by
  rw [cancelBases_bases]
  split_ifs <;> rfl

@[simp] theorem cancelBases_awaited (idx : Nat) :
    (c.cancelBases.bases idx).awaited = (c.bases idx).awaited := by
  rw [cancelBases_bases]
  split_ifs <;> rfl

end

/-- The bases may be canceled when the concat fails. -/
theorem Core.cancelBases (core : Core c) (failing : c.failing = true) : Core c.cancelBases where
  account := core.account
  ended := core.ended
  unended := core.unended
  unhanded := core.unhanded
  reading := core.reading
  lent := fun held mem => by
    rw [cancelBases_awaited]
    exact core.lent held mem
  idx := core.idx
  eof := core.eof
  eofs := fun idx => by
    rw [cancelBases_eof]
    exact core.eofs idx
  data := by
    rw [cancelBases_rest]
    exact core.data
  fresh := fun idx after => by
    rw [cancelBases_rest]
    exact core.fresh idx after
  drained := fun baseEof => by
    rw [cancelBases_rest]
    exact core.drained baseEof
  some := core.some
  outside := core.outside
  ends := core.ends
  counted := by
    simp only [cancelBases_awaited]
    exact core.counted
  early := fun _ _ _ => failing
  error := core.error
  canceled := fun _ _ => failing
  flagged := fun _ _ => .inr failing

theorem Core.cancel (core : Core c) : Core { c with canceled := true } :=
  { core with
    ended := fun awaited => by
      obtain ⟨accepted, awaits, nawaited, reads, scheduled, -⟩ := core.ended awaited
      exact ⟨accepted, awaits, nawaited, reads, scheduled, by simp [closing, RstreamConcat.failing]⟩
    unhanded := fun quiet => by simp [RstreamConcat.failing] at quiet
    early := fun _ _ _ => by simp [RstreamConcat.failing]
    error := fun _ => rfl
    canceled := fun _ _ => by simp [RstreamConcat.failing]
    flagged := fun _ _ => .inr (by simp [RstreamConcat.failing]) }

theorem Core.use (core : Core c) (use : ConcatUse) : Core (c.use use) := by
  cases use with
  | read id hook size =>
    rw [RstreamConcat.use, concatRead]
    split_ifs with checks
    · simp only [Bool.and_eq_true, Bool.not_eq_true', decide_eq_true_eq] at checks
      obtain ⟨⟨⟨-, awaited⟩, -⟩, -⟩ := checks
      exact { core with
          account := fun _ => by
            rw [core.account awaited, append_assoc]
            rfl
          ended := fun ended => absurd (ended.symm.trans awaited) (by simp) }
    · exact core
  | cancel =>
    rw [RstreamConcat.use, concatCancel]
    dsimp only
    split_ifs with awaited
    · exact core.cancel
    · have canceled := core.cancel.cancelBases (by simp [RstreamConcat.failing])
      exact { canceled with ended := fun ended => absurd ended awaited }
  | await hook => exact { core with }

/-- The state with which the user's callback is called. -/
def calling (c : RstreamConcat) (call : ConcatCall) : RstreamConcat :=
  { c with trace := c.trace ++ [call], reactions := c.reactions.tail }

theorem Core.callback {call : ConcatCall} (core : Core (c.calling call)) :
    Core (c.callback call) ∧ Kept (c.calling call) (c.callback call) := by
  have uses : ∀ (uses : List ConcatUse) (state : RstreamConcat), Core state →
      Core (uses.foldl RstreamConcat.use state) ∧
        Kept state (uses.foldl RstreamConcat.use state) := by
    intro uses
    induction uses with
    | nil => exact fun state core => ⟨core, Kept.refl state⟩
    | cons use rest ih =>
      intro state core
      obtain ⟨kept, same⟩ := ih (state.use use) (core.use use)
      exact ⟨kept, (use_kept state use).trans same⟩
  exact uses (c.reactions.headD []) (c.calling call) core

/-! ### What is called back -/

/-- A read that is called back is the next one, and is called back with nothing at the end only. -/
theorem Core.calling {read : ConcatRead} {buf : Bytes} {reads : List ConcatRead} (core : Core c)
    (awaited : c.awaited = false) (lent : c.lent = none) (baseEof : c.baseEof = false)
    (front : c.inHand ++ c.reads = read :: reads) (bytes : c.onTheWay = buf)
    (ends : buf = [] → delivered c.trace = c.all) :
    Core ({ c with reads, returned := none }.calling (.read read buf)) :=
  { core with
    account := fun _ => by
      rw [core.account awaited, append_assoc, front]
      simp [RstreamConcat.calling, inHand, lent]
    ended := fun ended => absurd (awaited.symm.trans ended) (by simp)
    unended := fun unended => by
      simpa [RstreamConcat.calling] using core.unended unended
    unhanded := fun quiet => by
      simpa [RstreamConcat.calling] using core.unhanded quiet
    lent := fun held mem => by simp [RstreamConcat.calling, lent] at mem
    data := by
      obtain ⟨got, delivers, rest⟩ := core.data
      refine ⟨got, ?_, rest⟩
      rw [bytes] at delivers
      simpa [RstreamConcat.calling, onTheWay] using delivers
    drained := fun drained => absurd (baseEof.symm.trans drained) (by simp)
    some := fun _ _ _ same => by simp [RstreamConcat.calling] at same
    ends := fun before request after same => by
      rcases eq_nil_or_concat after with rfl | ⟨middle, last, rfl⟩
      · obtain ⟨rfl, call⟩ := append_inj' same rfl
        simp only [cons.injEq, ConcatCall.read.injEq, and_true] at call
        exact ends call.2
      · rw [concat_eq_append, ← cons_append, ← append_assoc] at same
        exact core.ends before request middle (append_inj' same rfl).1 }

theorem Core.delivered (core : Core c) (last : c.baseIdx = c.nbases)
    (returned : c.returned = none) : delivered c.trace = c.all := by
  obtain ⟨got, delivers, rest⟩ := core.data
  rw [last, core.outside c.nbases le_rfl, append_eq_nil_iff] at rest
  simpa [RstreamConcat.all, onTheWay, returned, rest.1, last] using delivers

/-- At the end every read that waits is called back, and no read is taken any more. -/
theorem respondAllEof_spec (count : Nat) : ∀ {c : RstreamConcat}, Core c → c.eof = true →
    c.baseEof = false → c.returned = none → c.reads.length ≤ count →
    Core (c.respondAllEof count) ∧ (c.respondAllEof count).eof = true ∧
      (c.respondAllEof count).baseEof = false ∧ (c.respondAllEof count).returned = none ∧
      (c.respondAllEof count).reads = [] := by
  induction count with
  | zero =>
    intro c core eof baseEof returned enough
    exact ⟨core, eof, baseEof, returned, length_eq_zero_iff.mp (Nat.le_zero.mp enough)⟩
  | succ count ih =>
    intro c core eof baseEof returned enough
    rw [respondAllEof]
    cases waiting : c.reads with
    | nil => exact ⟨core, eof, baseEof, returned, waiting⟩
    | cons read reads =>
      have awaited : c.awaited = false := by
        by_contra awaited
        have none_waits := (core.ended (by simpa using awaited)).2.2.2.1
        simp [waiting] at none_waits
      have lent : c.lent = none := by
        by_contra lent
        obtain ⟨held, mem⟩ := Option.ne_none_iff_exists'.mp lent
        have inside := (core.lent held mem).2.1
        exact absurd (core.eof eof) inside.ne
      have front : c.inHand ++ c.reads = read :: reads := by
        simp [inHand, returned, lent, waiting]
      have bytes : c.onTheWay = [] := by simp [onTheWay, returned]
      have called := core.calling awaited lent baseEof front bytes
        fun _ => core.delivered (core.eof eof) returned
      have same : { c with reads, returned := none } = { c with reads } := by rw [← returned]
      rw [same] at called
      obtain ⟨after, kept⟩ := called.callback
      refine ih after (kept.eof.trans eof) (kept.baseEof.trans baseEof)
        (kept.returned.trans returned) ?_
      rw [kept.reads eof]
      rw [waiting] at enough
      exact Nat.le_of_succ_le_succ enough

variable {idx : Nat}

theorem Core.all_awaited (core : Core c) (counted : c.nawaited = c.nbases)
    (inside : idx < c.nbases) : (c.bases idx).awaited = true := by
  rw [core.counted] at counted
  exact countP_eq_length.mp (counted.trans length_range.symm) idx (mem_range.mpr inside)

theorem Core.unawaited (core : Core c) {held : Nat × ConcatRead} (mem : held ∈ c.lent) :
    c.nawaited ≠ c.nbases := by
  obtain ⟨-, inside, awaited, -⟩ := core.lent held mem
  intro counted
  simp [core.all_awaited counted inside] at awaited

variable {e : Option ConcatError}

/-- The user's callback for the end takes the reads that are left. -/
theorem Core.handing (hook : Nat) (core : Core c) (closing : c.closing = true)
    (returned : c.returned = none) (lent : c.lent = none) (awaited : c.awaited = false)
    (counted : c.nawaited = c.nbases) (quiet : c.failing = false → c.reads = [])
    (error : e = some .canceled → c.canceled = true) (same : (e.isSome || c.canceled) = c.failing) :
    Core ({ c with awaited := true, scheduled := false, e, reads := [] }.calling
      (.await hook e c.reads)) := by
  obtain ⟨once, unhanded⟩ := core.unended awaited
  have reads : handed (c.trace ++ [.await hook e c.reads]) = c.reads := by
    simpa [handed] using unhanded
  exact { core with
      account := fun unended => by simp [RstreamConcat.calling] at unended
      ended := fun _ => by
        refine ⟨?_, ?_, counted, rfl, rfl, ?_⟩
        · rw [RstreamConcat.calling, reads, core.account awaited]
          simp [calledReads, inHand, returned, lent]
        · simp only [awaits] at once
          simp [RstreamConcat.calling, awaits, once]
        · simp only [RstreamConcat.calling, RstreamConcat.closing, failing, same]
          simpa only [RstreamConcat.closing, failing] using closing
      unended := fun unended => by simp [RstreamConcat.calling] at unended
      unhanded := fun open_ => by
        simp only [RstreamConcat.calling, failing, same] at open_
        exact reads.trans (quiet open_)
      lent := fun held mem => by simp [RstreamConcat.calling, lent] at mem
      data := by
        obtain ⟨got, delivers, rest⟩ := core.data
        have skipped : ConcatCall.delivered (c.trace ++ [.await hook e c.reads]) =
            ConcatCall.delivered c.trace := by simp [ConcatCall.delivered]
        exact ⟨got, (congrArg (· ++ c.onTheWay) skipped).trans delivers, rest⟩
      ends := fun before request after handing => by
        rcases eq_nil_or_concat after with rfl | ⟨middle, last, rfl⟩
        · obtain ⟨-, call⟩ := append_inj' handing rfl
          simp at call
        · rw [concat_eq_append, ← cons_append, ← append_assoc] at handing
          exact core.ends before request middle (append_inj' handing rfl).1
      early := fun idx ended unfinished => by
        simpa only [RstreamConcat.calling, failing, same] using core.early idx ended unfinished
      error
      canceled := fun idx canceled => by
        simpa only [RstreamConcat.calling, failing, same] using core.canceled idx canceled
      flagged := fun idx flagged => by
        simpa only [RstreamConcat.calling, failing, same] using core.flagged idx flagged }

theorem named_failing (c : RstreamConcat) :
    ((if c.e = none && c.canceled then some ConcatError.canceled else c.e).isSome || c.canceled) =
      c.failing := by
  rw [failing]
  cases c.canceled <;> simp

theorem Core.named_error (core : Core c)
    (named : (if c.e = none && c.canceled then some ConcatError.canceled else c.e) =
      some .canceled) : c.canceled = true := by
  split_ifs at named with canceled
  · simp only [Bool.and_eq_true] at canceled
    exact canceled.2
  · exact core.error named

/-- Waiting to be awaited, when nothing is on the way back. -/
theorem Core.advanceAwait (core : Core c) (closing : c.closing = true)
    (returned : c.returned = none) (baseEof : c.baseEof = false) (awaited : c.awaited = false)
    (finished : c.eof = true → c.reads = []) : Sound c.advanceAwait := by
  have quiet : c.failing = false → c.reads = [] := fun quiet =>
    finished (by simpa [RstreamConcat.closing, quiet] using closing)
  have waits (busy : c.nawaited ≠ c.nbases ∨ c.awaitCb = none) : Sound c :=
    { core with
      returned, baseEof, finished
      comes := fun hook _ counted _ =>
        (busy.elim (fun uncounted => uncounted counted) fun unset => hook unset).elim
      answered := fun open_ _ _ => quiet open_ }
  rw [RstreamConcat.advanceAwait]
  by_cases reading : c.reading = true
  · rw [if_pos reading]
    rw [core.reading, Option.isSome_iff_exists] at reading
    obtain ⟨held, mem⟩ := reading
    exact waits (.inl (core.unawaited mem))
  · have lent : c.lent = none := by simpa [core.reading] using reading
    have same : { c with returned := none } = c := by rw [← returned]
    rw [if_neg reading]
    dsimp only
    by_cases unawaited : c.nawaited < c.nbases
    · rw [if_pos unawaited, same]
      exact waits (.inl unawaited.ne)
    · rw [if_neg unawaited]
      have counted : c.nawaited = c.nbases := by
        have most := countP_le_length (p := fun idx => (c.bases idx).awaited) (l := range c.nbases)
        rw [← core.counted, length_range] at most
        exact le_antisymm most (not_lt.mp unawaited)
      cases given : c.awaitCb with
      | none =>
        dsimp only
        rw [← given, same]
        exact waits (.inr given)
      | some hook =>
        dsimp only
        rw [← given, ← returned]
        obtain ⟨after, kept⟩ := (core.handing hook closing returned lent awaited counted
          quiet core.named_error c.named_failing).callback
        exact { after with
            returned := kept.returned.trans returned
            baseEof := kept.baseEof.trans baseEof
            comes := fun _ _ _ _ => kept.awaited
            finished := fun _ => (after.ended kept.awaited).2.2.2.1
            answered := fun _ _ _ => (after.ended kept.awaited).2.2.2.1 }

theorem Core.advanceClosing (core : Core c) (closing : c.closing = true)
    (returned : c.returned = none) (baseEof : c.baseEof = false)
    (finished : c.eof = true → c.reads = []) : Sound c.advanceClosing := by
  rw [RstreamConcat.advanceClosing]
  by_cases awaited : c.awaited = true
  · rw [if_pos awaited]
    obtain ⟨-, -, -, reads, -⟩ := core.ended awaited
    exact { core with
        returned, baseEof, finished
        comes := fun _ _ _ _ => awaited
        answered := fun _ _ _ => reads }
  · rw [if_neg awaited]
    have open_ : c.awaited = false := by simpa using awaited
    by_cases failing : c.failing = true
    · rw [if_pos failing]
      exact (core.cancelBases failing).advanceAwait closing returned baseEof open_ finished
    · rw [if_neg failing]
      exact core.advanceAwait closing returned baseEof open_ finished

/-! ### The state machine -/

theorem Core.unended_of_open (core : Core c) (open_ : c.closing = false) : c.awaited = false := by
  by_contra awaited
  have closed := (core.ended (by simpa using awaited)).2.2.2.2.2
  simp [closed] at open_

theorem open_parts (open_ : c.closing = false) : c.failing = false ∧ c.eof = false := by
  simpa [closing] using open_

/-- A read is lent to the base whose turn it is, and that base takes it. -/
theorem Core.advanceRead (core : Core c) (open_ : c.closing = false)
    (returned : c.returned = none) (baseEof : c.baseEof = false) (inside : c.baseIdx ≠ c.nbases) :
    Sat c.advanceRead Sound fun _ => False := by
  obtain ⟨quiet, unfinished⟩ := open_parts open_
  have passed : c.passed = c.baseIdx := by simp [RstreamConcat.passed, baseEof]
  rw [RstreamConcat.advanceRead]
  refine Sat.ite (fun reading => ?_) fun reading => ?_
  · exact { core with
        returned, baseEof
        comes := fun _ closed => by simp [open_] at closed
        finished := fun eof => by simp [unfinished] at eof
        answered := fun _ _ lent => by simp [core.reading, lent] at reading }
  · have lent : c.lent = none := by simpa [core.reading] using reading
    cases waiting : c.reads with
    | nil =>
      exact { core with
          returned, baseEof
          comes := fun _ closed => by simp [open_] at closed
          finished := fun _ => waiting
          answered := fun _ _ _ => waiting }
    | cons read reads =>
      have unfinished : (c.bases c.baseIdx).eof = false := by
        by_contra eof
        have before := (core.eofs c.baseIdx).mp (by simpa using eof)
        exact absurd (passed ▸ before) (lt_irrefl _)
      have unawaited : (c.bases c.baseIdx).awaited = false := by
        by_contra awaited
        have failing := core.early c.baseIdx (by simpa using awaited) unfinished
        simp [quiet] at failing
      have uncanceled : (c.bases c.baseIdx).canceled = false := by
        by_contra canceled
        have failing := core.canceled c.baseIdx (by simpa using canceled)
        simp [quiet] at failing
      dsimp only
      rw [unawaited, uncanceled, unfinished]
      simp only [Bool.or_self, Bool.false_eq_true, if_false, Outcome.sat_ok]
      exact { core with
          account := fun awaited => by
            rw [core.account awaited, waiting]
            simp [inHand, returned, lent]
          ended := fun awaited => by simp [core.unended_of_open open_] at awaited
          reading := rfl
          lent := fun held mem => by
            cases mem
            exact ⟨rfl, lt_of_le_of_ne (passed ▸ core.idx) inside, unawaited, returned, baseEof⟩
          returned, baseEof
          comes := fun _ closed => by
            exact absurd (open_.symm.trans closed) (by simp)
          finished := fun eof => absurd ((open_parts open_).2.symm.trans eof) (by simp)
          answered := fun _ _ same => by simp at same }

/-- What is there is answered before more is asked for. -/
theorem Core.advanceBase (core : Core c) (open_ : c.closing = false) (baseEof : c.baseEof = false)
    (ended : c.baseIdx = c.nbases → c.returned = none) :
    Sat c.advanceBase Sound fun _ => False := by
  obtain ⟨quiet, unfinished⟩ := open_parts open_
  rw [RstreamConcat.advanceBase]
  refine Sat.ite (fun last => ?_) fun last => ?_
  · have finished : Core { c with eof := true } :=
      { core with
        ended := fun awaited => by simp [core.unended_of_open open_] at awaited
        eof := fun _ => last }
    obtain ⟨after, eof, baseEof, returned, reads⟩ := respondAllEof_spec c.reads.length finished rfl
      baseEof (ended last) le_rfl
    exact after.advanceClosing (by simp [closing, eof]) returned baseEof fun _ => reads
  · cases back : c.returned with
    | none => exact core.advanceRead open_ back baseEof last
    | some answer =>
      obtain ⟨read, buf⟩ := answer
      have lent : c.lent = none := by
        by_contra lent
        obtain ⟨held, mem⟩ := Option.ne_none_iff_exists'.mp lent
        simp [(core.lent held mem).2.2.2.1] at back
      have front : c.inHand ++ c.reads = read :: c.reads := by simp [inHand, back, lent]
      have bytes : c.onTheWay = buf := by simp [onTheWay, back]
      have called := core.calling (core.unended_of_open open_) lent baseEof front bytes
        fun empty => absurd empty (core.some baseEof read buf back).1
      obtain ⟨after, kept⟩ := called.callback
      dsimp only
      have returned := kept.returned
      have idle := kept.baseEof.trans baseEof
      refine Sat.ite (fun closed => ?_) fun closed => ?_
      · refine after.advanceClosing closed returned idle fun eof => ?_
        exact absurd ((kept.eof.trans unfinished).symm.trans eof) (by simp)
      · refine after.advanceRead (by simpa using closed) returned idle ?_
        rw [kept.baseIdx, kept.nbases]
        exact last

theorem Core.leave {read : ConcatRead} {buf : Bytes} (core : Core c) (open_ : c.closing = false)
    (baseEof : c.baseEof = true) (back : c.returned = some (read, buf)) : Core { c with
      baseIdx := c.baseIdx + 1, baseEof := false, reads := read :: c.reads, returned := none } := by
  have awaited := core.unended_of_open open_
  have lent : c.lent = none := by
    by_contra lent
    obtain ⟨held, mem⟩ := Option.ne_none_iff_exists'.mp lent
    simp [(core.lent held mem).2.2.2.1] at back
  have passed : c.passed = c.baseIdx + 1 := by simp [RstreamConcat.passed, baseEof]
  obtain ⟨rest, request, answer⟩ := core.drained baseEof
  have empty : buf = [] := by
    rw [back, Option.some.injEq, Prod.mk.injEq] at answer
    exact answer.2
  exact { core with
      account := fun _ => by
        rw [core.account awaited]
        simp [inHand, back, lent]
      ended := fun ended => by simp [awaited] at ended
      lent := fun held mem => by simp [lent] at mem
      idx := passed ▸ core.idx
      eof := fun eof => by simp [(open_parts open_).2] at eof
      eofs := fun idx => by
        rw [core.eofs idx, passed]
        rfl
      data := by
        obtain ⟨got, delivers, remains⟩ := core.data
        rw [rest, append_nil] at remains
        subst remains
        refine ⟨[], ?_, by simpa using core.fresh (c.baseIdx + 1) (Nat.lt_succ_self _)⟩
        simpa [onTheWay, back, empty, range_succ] using delivers
      fresh := fun idx after => core.fresh idx (Nat.lt_of_succ_lt after)
      drained := fun again => by simp at again
      some := fun _ _ _ same => by simp at same }

theorem Core.advanceState (core : Core c)
    (idle : c.closing = true → c.returned = none ∧ c.baseEof = false)
    (finished : c.eof = true → c.reads = []) : Sat c.advanceState Sound fun _ => False := by
  rw [RstreamConcat.advanceState]
  refine Sat.ite (fun closed => ?_) fun closed => ?_
  · obtain ⟨returned, baseEof⟩ := idle closed
    exact core.advanceClosing closed returned baseEof finished
  · have open_ : c.closing = false := by simpa using closed
    refine Sat.ite (fun baseEof => ?_) fun baseEof => ?_
    · obtain ⟨-, read, back⟩ := core.drained baseEof
      simp only [back]
      exact (core.leave open_ baseEof back).advanceBase open_ rfl fun _ => rfl
    · have unfinished : c.baseEof = false := by simpa using baseEof
      refine core.advanceBase open_ unfinished fun last => ?_
      by_contra returned
      obtain ⟨⟨read, buf⟩, back⟩ := Option.ne_none_iff_exists'.mp returned
      exact absurd (core.some unfinished read buf back).2 last.not_lt

/-! ### The steps -/

theorem Sound.react (sound : Sound c) (reactions : List (List ConcatUse)) :
    Sound { c with reactions } := { sound with }

/-- The user may call the stream at any time, but for the callback that comes too late. -/
theorem Sound.use {use : ConcatUse} (sound : Sound c) (clear : c.Clear (.use use, [])) :
    Sound (c.use use) := by
  have kept := use_kept c use
  have after : Core (c.use use) := sound.toCore.use use
  refine { after with
      returned := kept.returned.trans sound.returned
      baseEof := kept.baseEof.trans sound.baseEof
      finished := fun eof => by
        rw [kept.eof] at eof
        exact (kept.reads eof).trans (sound.finished eof)
      comes := ?_
      answered := ?_ }
  · cases use with
    | read id hook size =>
      rw [RstreamConcat.use, concatRead]
      split_ifs with checks
      · exact fun _ _ _ scheduled => by simp at scheduled
      · exact sound.comes
    | cancel =>
      rw [RstreamConcat.use, concatCancel]
      dsimp only
      split_ifs with awaited
      · exact fun _ _ _ _ => awaited
      · exact fun _ _ _ scheduled => by simp at scheduled
    | await hook =>
      intro _ closed counted unscheduled
      rcases clear with open_ | uncounted | scheduled | awaited
      · exact absurd (open_.symm.trans closed) (by simp)
      · exact absurd counted uncounted
      · exact absurd (scheduled.symm.trans unscheduled) (by simp)
      · exact awaited
  · cases use with
    | read id hook size =>
      rw [RstreamConcat.use, concatRead]
      split_ifs with checks
      · exact fun _ scheduled => by simp at scheduled
      · exact sound.answered
    | cancel =>
      rw [RstreamConcat.use, concatCancel]
      dsimp only
      split_ifs with awaited
      · exact fun quiet => by simp [failing] at quiet
      · exact fun _ scheduled => by simp at scheduled
    | await hook => exact sound.answered

/-- The bases, after one of them delivered. -/
def deliverTo (c : RstreamConcat) (idx : Nat) (buf : Bytes) : Nat → ConcatBase :=
  fun other => if other = idx then deliver (c.bases idx) buf else c.bases other

theorem deliverTo_awaited (idx : Nat) (buf : Bytes) (other : Nat) :
    (c.deliverTo idx buf other).awaited = (c.bases other).awaited := by
  rw [deliverTo]
  split_ifs with same
  · rw [same, deliver]
  · rfl

theorem deliverTo_canceled (idx : Nat) (buf : Bytes) (other : Nat) :
    (c.deliverTo idx buf other).canceled = (c.bases other).canceled := by
  rw [deliverTo]
  split_ifs with same
  · rw [same, deliver]
  · rfl

/-- A read that comes back with bytes, or with the end of its base. -/
theorem Core.receive {held : Nat × ConcatRead} {buf : Bytes} (core : Core c)
    (open_ : c.closing = false) (mem : held ∈ c.lent)
    (delivers : Delivers (c.bases c.baseIdx) buf) : Core { c with
      lent := none
      bases := c.deliverTo c.baseIdx buf
      returned := some ({ held.2 with cb := c.originalReadCb }, buf)
      reading := false
      baseEof := if buf.length = 0 then true else c.baseEof } := by
  obtain ⟨-, inside, unawaited, returned, baseEof⟩ := core.lent held mem
  obtain ⟨-, -, ⟨rest, front⟩, last⟩ := delivers
  have passed : c.passed = c.baseIdx := by simp [RstreamConcat.passed, baseEof]
  have lent : c.lent = some held := mem
  have here : c.deliverTo c.baseIdx buf c.baseIdx = deliver (c.bases c.baseIdx) buf := if_pos rfl
  have others : ∀ other, other ≠ c.baseIdx → c.deliverTo c.baseIdx buf other = c.bases other :=
    fun other elsewhere => if_neg elsewhere
  exact { core with
      account := fun awaited => by
        rw [core.account awaited]
        simp [inHand, returned, lent]
      ended := fun awaited => by simp [core.unended_of_open open_] at awaited
      reading := rfl
      lent := fun _ none => by simp at none
      idx := by
        simp only [RstreamConcat.passed, baseEof]
        by_cases empty : buf.length = 0
        · simpa [empty] using Nat.succ_le_of_lt inside
        · simpa [empty] using inside.le
      eofs := fun idx => by
        by_cases same : idx = c.baseIdx
        · subst same
          simp only [here, deliver, RstreamConcat.passed, baseEof, length_eq_zero_iff,
            decide_eq_true_eq]
          by_cases empty : buf = []
          · simp [empty]
          · simp [empty]
        · have before : idx < c.baseIdx ↔ idx < c.baseIdx + 1 :=
            ⟨Nat.lt_succ_of_lt, fun after => lt_of_le_of_ne (Nat.le_of_lt_succ after) same⟩
          simp only [others idx same, core.eofs idx, passed]
          simp only [RstreamConcat.passed, baseEof]
          by_cases empty : buf.length = 0
          · simpa [empty] using before
          · simp [empty]
      data := by
        obtain ⟨got, account, remains⟩ := core.data
        refine ⟨got ++ buf, ?_, ?_⟩
        · rw [← append_assoc, ← account]
          simp [onTheWay, returned]
        · simp only [here, deliver]
          rw [← remains, ← front, drop_left, append_assoc]
      fresh := fun idx after => by
        simp only [others idx after.ne']
        exact core.fresh idx after
      drained := fun drained => by
        have empty : buf = [] := by simpa [baseEof] using drained
        subst empty
        refine ⟨?_, _, rfl⟩
        simp [here, deliver, last rfl]
      some := fun more request bytes same => by
        simp only [Option.some.injEq, Prod.mk.injEq] at same
        obtain ⟨-, rfl⟩ := same
        refine ⟨fun empty => ?_, inside⟩
        simp [empty] at more
      counted := by
        simp only [deliverTo_awaited]
        exact core.counted
      early := fun idx awaited unfinished => by
        rw [deliverTo_awaited] at awaited
        by_cases same : idx = c.baseIdx
        · subst same
          simp [unawaited] at awaited
        · simp only [others idx same] at unfinished
          exact core.early idx awaited unfinished
      canceled := fun idx canceled => by
        rw [deliverTo_canceled] at canceled
        exact core.canceled idx canceled
      flagged := fun idx flagged => by
        rw [deliverTo_awaited]
        exact core.flagged idx flagged }

/-- The bases, after one of them was awaited. -/
def awaitTo (c : RstreamConcat) (idx : Nat) : Nat → ConcatBase :=
  fun other => if other = idx then { c.bases idx with awaited := true } else c.bases other

theorem awaitTo_self (idx : Nat) : (c.awaitTo idx idx).awaited = true := by simp [awaitTo]

theorem awaitTo_other {other : Nat} (elsewhere : other ≠ idx) :
    c.awaitTo idx other = c.bases other := if_neg elsewhere

theorem awaitTo_unchanged (idx other : Nat) :
    (c.awaitTo idx other).rest = (c.bases other).rest ∧
      (c.awaitTo idx other).eof = (c.bases other).eof ∧
        (c.awaitTo idx other).canceled = (c.bases other).canceled := by
  rw [awaitTo]
  split_ifs with same
  · rw [same]
    exact ⟨rfl, rfl, rfl⟩
  · exact ⟨rfl, rfl, rfl⟩

/-- One more base is awaited. -/
theorem countP_awaitTo (unawaited : (c.bases idx).awaited = false) (count : Nat) :
    ((range count).countP fun other => (c.awaitTo idx other).awaited) =
      ((range count).countP fun other => (c.bases other).awaited) +
        if idx < count then 1 else 0 := by
  induction count with
  | zero => rfl
  | succ count ih =>
    rw [range_succ, countP_append, countP_append, ih, countP_singleton, countP_singleton]
    by_cases here : count = idx
    · subst here
      simp [awaitTo_self, unawaited]
    · rw [awaitTo_other here]
      have same : idx < count ↔ idx < count + 1 :=
        ⟨Nat.lt_succ_of_lt, fun before => lt_of_le_of_ne (Nat.le_of_lt_succ before) (Ne.symm here)⟩
      simp only [same]
      omega

/-- The error of a base that is awaited. -/
def errorOf (c : RstreamConcat) (idx : Nat) (e : Option ConcatError) : Option ConcatError :=
  keepFirst c.e (if c.basesCanceled idx then e else upgradeCanceled e)

theorem errorOf_isSome (failed : e.isSome = true) : (c.errorOf idx e).isSome = true := by
  have upgraded : (if c.basesCanceled idx then e else upgradeCanceled e).isSome = true := by
    split_ifs
    · exact failed
    · rw [upgradeCanceled]
      split_ifs
      · rfl
      · exact failed
  rw [errorOf]
  cases c.e with
  | none => exact upgraded
  | some first => cases first with
    | canceled => exact upgraded
    | other => rfl

/-- A base ends by itself only when it is at its end, or fails. -/
theorem Core.awaitOf (core : Core c) (inside : idx < c.nbases) (ends : Ends (c.bases idx) e)
    (free : ∀ held ∈ c.lent, held.1 ≠ idx) : Core { c with
      bases := c.awaitTo idx
      e := c.errorOf idx e
      nawaited := c.nawaited + 1
      basesCanceled := fun other => if other = idx then true else c.basesCanceled other } := by
  obtain ⟨unawaited, finished⟩ := ends
  have uncounted : c.awaited = false := by
    by_contra awaited
    have counted := (core.ended (by simpa using awaited)).2.2.1
    simp [core.all_awaited counted inside] at unawaited
  have canceling : c.errorOf idx e = some .canceled → c.canceled = true := by
    rw [errorOf]
    cases first : c.e with
    | some error => cases error with
      | canceled => exact fun _ => core.error first
      | other => simp [keepFirst]
    | none =>
      simp only [keepFirst]
      split_ifs with flagged
      · intro _
        rcases core.flagged idx flagged with awaited | failing
        · simp [unawaited] at awaited
        · rw [RstreamConcat.failing, first] at failing
          simpa using failing
      · rw [upgradeCanceled]
        split_ifs with same
        · simp
        · exact fun canceled => absurd canceled same
  have stays : c.failing = true → ((c.errorOf idx e).isSome || c.canceled) = true := by
    intro failing
    cases canceled : c.canceled with
    | true => simp
    | false =>
      rw [errorOf]
      cases first : c.e with
      | some error => cases error with
        | canceled => simp [core.error first] at canceled
        | other => rfl
      | none => simp [RstreamConcat.failing, first, canceled] at failing
  exact { core with
      ended := fun awaited => by simp [uncounted] at awaited
      unhanded := fun quiet => by
        refine core.unhanded ?_
        by_contra failing
        have fails := stays (by simpa using failing)
        simp only [RstreamConcat.failing] at quiet
        simp [quiet] at fails
      lent := fun held mem => by
        obtain ⟨here, rest⟩ := core.lent held mem
        have elsewhere : c.baseIdx ≠ idx := here ▸ free held mem
        simp only [awaitTo_other elsewhere]
        exact ⟨here, rest⟩
      eofs := fun other => by
        simp only [(awaitTo_unchanged idx other).2.1]
        exact core.eofs other
      data := by
        simp only [(awaitTo_unchanged idx c.baseIdx).1]
        exact core.data
      fresh := fun other after => by
        simp only [(awaitTo_unchanged idx other).1]
        exact core.fresh other after
      drained := fun baseEof => by
        simp only [(awaitTo_unchanged idx c.baseIdx).1]
        exact core.drained baseEof
      counted := by
        rw [countP_awaitTo unawaited, ← core.counted, if_pos inside]
      early := fun other awaited unfinished => by
        simp only [(awaitTo_unchanged idx other).2.1] at unfinished
        by_cases same : other = idx
        · subst same
          have failed : e.isSome = true := by
            by_contra none
            simp only [Option.not_isSome_iff_eq_none] at none
            simp [finished none] at unfinished
          simp [RstreamConcat.failing, errorOf_isSome failed]
        · simp only [awaitTo_other same] at awaited
          exact stays (core.early other awaited unfinished)
      error := canceling
      canceled := fun other canceled => by
        simp only [(awaitTo_unchanged idx other).2.2] at canceled
        exact stays (core.canceled other canceled)
      flagged := fun other flagged => by
        by_cases same : other = idx
        · subst same
          exact .inl (awaitTo_self other)
        · simp only [if_neg same] at flagged
          simp only [awaitTo_other same]
          exact (core.flagged other flagged).imp_right stays }

/-- What one event does, when it keeps clear of the defects. -/
theorem Sound.step (sound : Sound c) (event : ConcatEvent × List (List ConcatUse))
    (clear : c.Clear event) : Sat (RstreamConcat.step c event) Sound (· = .impossible) := by
  obtain ⟨event, reactions⟩ := event
  have weaker {outcome : Except ConcatFault RstreamConcat}
      (sat : Sat outcome Sound fun _ => False) : Sat outcome Sound (· = .impossible) := by
    cases outcome with
    | ok next => exact sat
    | error fault => exact sat.elim
  have before := sound.react reactions
  rw [RstreamConcat.step]
  cases event with
  | use use =>
    refine before.use ?_
    cases use with
    | read id hook size => trivial
    | cancel => trivial
    | await hook => exact clear
  | baseRead buf =>
    have open_ : c.closing = false := clear
    cases holds : c.lent with
    | none => simp
    | some held =>
      obtain ⟨idx, read⟩ := held
      obtain ⟨rfl, -⟩ := sound.lent (idx, read) holds
      dsimp only
      refine Sat.ite (fun delivers => ?_) fun _ => ?_
      · refine weaker ((before.toCore.receive open_ holds delivers).advanceState ?_ sound.finished)
        exact fun closed => absurd (open_.symm.trans closed) (by simp)
      · rfl
  | baseAwait idx e =>
    by_cases may : idx < c.nbases ∧ Ends (c.bases idx) e
    · dsimp only
      rw [if_pos may]
      have none_held : heldBy { c with reactions } idx = [] := by
        rw [heldBy]
        cases holds : c.lent with
        | none => rfl
        | some held => exact if_neg (clear held holds)
      rw [none_held]
      have after := before.toCore.awaitOf may.1 may.2 clear
      exact weaker (after.advanceState (fun _ => ⟨sound.returned, sound.baseEof⟩) sound.finished)
    · dsimp only
      rw [if_neg may]
      rfl
  | scheduled =>
    dsimp only
    refine Sat.ite (fun scheduled => ?_) fun _ => ?_
    · have woken : Core { c with reactions, scheduled := false } :=
        { before.toCore with
          ended := fun awaited => by
            have idle := (sound.ended awaited).2.2.2.2.1
            simp [scheduled] at idle }
      exact weaker (woken.advanceState (fun _ => ⟨sound.returned, sound.baseEof⟩) sound.finished)
    · rfl

theorem init_sound {contents : List Bytes} (start : init contents = .ok c) : Sound c := by
  rw [init] at start
  split_ifs at start
  cases start
  exact
    { account := fun _ => rfl
      ended := fun awaited => by simp [fresh] at awaited
      unended := fun _ => ⟨rfl, rfl⟩
      unhanded := fun _ => rfl
      reading := rfl
      lent := fun _ mem => by simp [fresh] at mem
      idx := Nat.zero_le _
      eof := fun eof => by simp [fresh] at eof
      eofs := fun idx => by simp [fresh, passed]
      data := ⟨[], rfl, rfl⟩
      fresh := fun _ _ => rfl
      drained := fun drained => by simp [fresh] at drained
      some := fun _ _ _ same => by simp [fresh] at same
      outside := fun idx outside => by
        have beyond : contents.length ≤ idx := outside
        simp [fresh, getD_eq_getElem?_getD, beyond]
      ends := fun before _ _ same => by simp [fresh] at same
      counted := by simp [fresh]
      early := fun _ awaited => by simp [fresh] at awaited
      error := fun error => by simp [fresh] at error
      canceled := fun _ canceled => by simp [fresh] at canceled
      flagged := fun _ flagged => by simp [fresh] at flagged
      returned := rfl
      baseEof := rfl
      comes := fun hook => by simp [fresh] at hook
      finished := fun _ => rfl
      answered := fun _ _ _ => rfl }

/-! ### What follows -/

theorem flatMap_range_front {fewer count : Nat} (few : fewer ≤ count) (contents : Nat → Bytes) :
    (range fewer).flatMap contents <+: (range count).flatMap contents := by
  obtain ⟨more, rfl⟩ := Nat.exists_eq_add_of_le few
  rw [range_add, flatMap_append]
  exact prefix_append _ _

theorem Core.bytes (core : Core c) : ConcatCall.delivered c.trace <+: c.all := by
  obtain ⟨got, delivers, rest⟩ := core.data
  have within : c.baseIdx ≤ c.nbases := by
    have passed := core.idx
    rw [RstreamConcat.passed] at passed
    split_ifs at passed
    · exact Nat.le_of_succ_le passed
    · exact passed
  have before : (range c.baseIdx).flatMap c.contents ++ got <+: c.all := by
    rcases within.lt_or_eq with inside | last
    · refine IsPrefix.trans ?_ (flatMap_range_front (Nat.succ_le_of_lt inside) c.contents)
      rw [range_succ, flatMap_append, flatMap_singleton, ← rest, prefix_append_right_inj]
      exact prefix_append _ _
    · rw [last, core.outside c.nbases le_rfl, append_eq_nil_iff] at rest
      rw [rest.1, append_nil, last]
      exact prefix_rfl
  exact (prefix_append _ c.onTheWay).trans (delivers ▸ before)

theorem Sound.contract (sound : Sound c) : Contract c where
  bytes := sound.toCore.bytes
  ends := sound.ends
  reads := by
    cases awaited : c.awaited with
    | true => exact (sound.ended awaited).1 ▸ prefix_rfl
    | false =>
      rw [(sound.unended awaited).2, append_nil, sound.account awaited, append_assoc]
      exact prefix_append _ _
  all := fun awaited => (sound.ended awaited).1.symm
  once := by
    cases awaited : c.awaited with
    | true => exact (sound.ended awaited).2.1.le
    | false => exact (sound.unended awaited).1.le.trans (Nat.zero_le 1)
  comes := fun hook closed counted unscheduled =>
    (sound.ended (sound.comes hook closed counted unscheduled)).2.1
  answered := fun quiet unscheduled lent => by
    have reads := sound.answered quiet unscheduled lent
    cases awaited : c.awaited with
    | true =>
      rw [(sound.ended awaited).1, sound.unhanded quiet, append_nil]
    | false =>
      rw [sound.account awaited, reads]
      simp [inHand, sound.returned, lent]

/-- Every read is accounted for, in every run that keeps clear of the defects. -/
theorem every_read_accounted {contents : List Bytes} (start : init contents = .ok c)
    (events : List (ConcatEvent × List (List ConcatUse)))
    (clear : Run.Guarded step Clear c events) :
    Sat (Run.run step c events) Contract (· = .impossible) :=
  (clear.sat (fun _ event sound clear => sound.step event clear) (init_sound start)).mono
    fun _ => Sound.contract

theorem every_read_accounted_twice :
    Sat (Run.run step (fresh [[104, 105], [33]])
      [(.use (.await 9), []), (.use (.read 1 7 16), []), (.scheduled, []),
        (.baseRead [104, 105], []), (.use (.read 2 7 16), []), (.scheduled, []),
        (.baseRead [], []), (.baseAwait 0 none, []), (.baseRead [33], [[.read 3 7 16]]),
        (.baseRead [], []), (.baseAwait 1 none, [])])
      Contract (· = .impossible) :=
  every_read_accounted (show init [[104, 105], [33]] = .ok _ from rfl) _ (by decide +kernel)

/-- The user cancels while a read is in flight, and the bases do what they are asked. -/
def canceledInFlight : List (ConcatEvent × List (List ConcatUse)) :=
  [(.use (.await 9), []), (.use (.read 1 7 16), []), (.scheduled, []), (.use .cancel, []),
    (.baseAwait 0 (some .canceled), []), (.baseAwait 1 (some .canceled), [])]

/-- The read that was in flight comes back with the callback of the concat. -/
theorem read_comes_back_foreign :
    ¬ Sat (Run.run step (fresh [[104, 105], [33]]) canceledInFlight)
      Contract (· = .impossible) := by
  intro sat
  have foreign : Sat (Run.run step (fresh [[104, 105], [33]]) canceledInFlight)
      (fun c => c.trace = [.await 9 (some .canceled) [⟨1, .concat⟩]] ∧ c.accepted = [⟨1, .user 7⟩])
      (fun _ => False) := by decide +kernel
  cases outcome : Run.run step (fresh [[104, 105], [33]]) canceledInFlight with
  | error fault =>
    rw [outcome] at foreign
    exact foreign
  | ok c =>
    rw [outcome] at sat foreign
    obtain ⟨trace, accepted⟩ := foreign
    have front := Contract.reads sat
    rw [trace, accepted] at front
    exact absurd front (by decide)

-- A read that comes back after the user canceled is lost.
example : Sat (Run.run step (fresh [[33]])
    [(.use (.await 9), []), (.use (.read 1 7 16), []), (.scheduled, []), (.use .cancel, []),
      (.baseRead [33], []), (.baseAwait 0 (some .canceled), [])])
    (fun c => c.trace = [.await 9 (some .canceled) []] ∧ c.accepted = [⟨1, .user 7⟩])
    (fun _ => False) := by decide +kernel

-- A callback that is given after the end is not called.
example : Sat (Run.run step (fresh [])
    [(.use (.read 1 7 16), []), (.scheduled, []), (.use (.await 9), [])])
    (fun c => c.trace = [.read ⟨1, .user 7⟩ []] ∧ c.closing = true ∧ c.scheduled = false)
    (fun _ => False) := by decide +kernel

end RstreamConcat

end Splintermail
