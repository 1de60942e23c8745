/-
This file proves what holds of a reader of chunked bodies along its runs: what its user was
given is what the bytes mean that it has read, and it stops reading only where the body ends.

Three things must not happen for this. The end of what is readable must not wrap around where a
chunk begins, because then the bytes of the chunk are taken for the line of the next one. The
base stream must not end with an error while a read of the reader is with it, because then the
reader waits for that read forever. And the user must not cancel in `hdr_cb` unless the rest of
the trailer is in the buffer, because the reader goes on and reads from a canceled stream.
-/

import Splintermail.Http.ChunkedParts

namespace Splintermail

open List ChunkedReads
open Outcome (Sat)

open Framing

namespace Given

/-- What the user was told of the body. -/
def items : Given → List ChunkedItem
  | .data bytes => bytes.map .byte
  | .header hdr => [.header hdr]
  | .eof _ => []
  | .awaited _ => []

/-- A call that gives some of the body. -/
def IsContent : Given → Prop
  | .data _ => True
  | .header _ => True
  | .eof _ => False
  | .awaited _ => False

end Given

namespace Chunked

/-- The calls in their order: the content, then one end of the body, then `await_cb`, which has an
error unless the body has ended. -/
def Ordered (c : Chunked) (given : List Given) : Prop :=
  ∃ front count error,
    given = front ++ (if c.eof then [.eof count] else []) ++
        (if c.awaited then [.awaited error] else []) ∧
      (∀ call ∈ front, call.IsContent) ∧ 0 < count ∧ (c.awaited → error = none → c.eof)

section

variable {c : Chunked} {given : List Given} (ordered : c.Ordered given)

include ordered

theorem Ordered.content {next : Chunked} {more : List Given}
    (open' : c.eof = false ∧ c.awaited = false) (same : next.eof = false ∧ next.awaited = false)
    (content : ∀ call ∈ more, call.IsContent) : next.Ordered (given ++ more) := by
  obtain ⟨front, count, error, rfl, each, positive, -⟩ := ordered
  refine ⟨front ++ more, count, error, ?_, ?_, positive, ?_⟩
  · rw [open'.1, open'.2, same.1, same.2]
    simp
  · intro call mem
    exact (mem_append.mp mem).elim (each call) (content call)
  · intro awaited
    rw [same.2] at awaited
    exact absurd awaited nofun

theorem Ordered.ends {next : Chunked} {count : Nat} (open' : c.eof = false ∧ c.awaited = false)
    (same : next.eof = true ∧ next.awaited = false) (positive : 0 < count) :
    next.Ordered (given ++ [.eof count]) := by
  obtain ⟨front, -, error, rfl, each, -, -⟩ := ordered
  refine ⟨front, count, error, ?_, each, positive, fun _ _ => same.1⟩
  rw [open'.1, open'.2, same.1, same.2]
  simp

theorem Ordered.closes {next : Chunked} {error : Option StreamError} (open' : c.awaited = false)
    (same : next.eof = c.eof ∧ next.awaited = true) (told : error = none → c.eof) :
    next.Ordered (given ++ [.awaited error]) := by
  obtain ⟨front, count, -, rfl, each, positive, -⟩ := ordered
  refine ⟨front, count, error, ?_, each, positive, fun _ none => same.1.trans (told none)⟩
  rw [open', same.1, same.2]
  simp

end

end Chunked

/-! ### What holds along a run -/

open Chunked in
/-- A reader and what is known of its body. -/
structure ChunkedRun.Sound (web : Web) (s : ChunkedRun) : Prop where
  room : s.c.buf.length ≤ chunkedBufSize
  within : s.c.nbufread ≤ s.c.buf.length
  counted : s.c.nchunkread < s.c.nchunkbytes ∨ s.c.nchunkbytes = 0 ∧ s.c.nchunkread = 0
  sized : s.c.nchunkbytes ≤ sizeMax
  unstarted : s.c.firstChunkParsed = false → s.c.nchunkbytes = 0 ∧ s.c.chunksDone = false
  chunked : s.c.chunksDone = true → s.c.nchunkbytes = 0
  whole : s.c.trailerRead = true → s.c.chunksDone = true ∧ s.c.rest = []
  ended : s.c.eof = true → s.c.trailerRead = true ∧ s.c.reads = [] ∧
    ChunkedBody web s.received (s.given.flatMap Given.items)
  asked : ∀ size ∈ s.c.reads, 0 < size
  follows : ∃ taken phase, s.received = taken ++ s.c.rest ∧
    ChunkedReads web .start taken (s.given.flatMap Given.items) phase ∧
    (s.c.closing = false ∨ s.inHdrCb = true → phase = s.c.phase)
  inside : s.inHdrCb = true → s.c.reading = false ∧ s.c.chunksDone = true ∧ s.c.trailerRead = false ∧
    s.c.e = none ∧ s.c.awaited = false
  ordered : s.c.Ordered s.given
  inflight : s.c.reading = true →
    s.c.trailerRead = false ∧ s.c.nbufread = 0 ∧ Lacks web s.c.phase s.c.rest
  broken : s.c.base.eof = true → s.c.e ≠ none ∧ s.c.e ≠ some .canceled ∧ s.c.eof = false
  rejects : s.c.e ≠ none → s.c.canceled = false → s.c.base.awaited = false →
    s.c.base.eof = true ∨ Refused web .start s.received
  told : s.c.e = some .canceled → s.c.canceled = true
  canceled : s.c.base.canceled = true → s.c.failing = true
  shared : s.c.baseCanceled = true → s.c.base.canceled = true
  awaited : s.c.base.awaited = true → s.c.closing = true ∧ s.c.reading = false
  answered : s.c.awaited = true → s.c.closing = true

namespace ChunkedRun

variable {web : Web}

theorem start_sound : start.Sound web where
  room := Nat.zero_le _
  within := le_rfl
  counted := .inr ⟨rfl, rfl⟩
  sized := Nat.zero_le _
  unstarted _ := ⟨rfl, rfl⟩
  chunked := nofun
  whole := nofun
  ended := nofun
  asked := nofun
  follows := ⟨[], .start, rfl, .nil _, fun _ => rfl⟩
  inside := nofun
  ordered := ⟨[], 1, none, rfl, nofun, Nat.one_pos, nofun⟩
  inflight := nofun
  broken := nofun
  rejects := fun failed => absurd rfl failed
  told := nofun
  canceled := nofun
  shared := nofun
  awaited := nofun
  answered := nofun

variable {s : ChunkedRun}

theorem Sound.le (sound : s.Sound web) : s.c.nchunkread ≤ s.c.nchunkbytes := by
  rcases sound.counted with below | ⟨total, read⟩
  · exact Nat.le_of_lt below
  · rw [total, read]

theorem Sound.base_open (sound : s.Sound web) (open' : s.c.closing = false) :
    (s.c.base.awaited || s.c.base.canceled || s.c.base.eof) = false := by
  obtain ⟨going, -⟩ := Bool.or_eq_false_iff.mp open'
  obtain ⟨-, fine⟩ := Bool.or_eq_false_iff.mp going
  refine Bool.or_eq_false_iff.mpr ⟨Bool.or_eq_false_iff.mpr ⟨?_, ?_⟩, ?_⟩
  · refine Bool.eq_false_iff.mpr fun awaited => ?_
    rw [(sound.awaited awaited).1] at open'
    exact absurd open' nofun
  · refine Bool.eq_false_iff.mpr fun canceled => ?_
    rw [sound.canceled canceled] at going
    exact absurd going nofun
  · refine Bool.eq_false_iff.mpr fun eof => ?_
    exact (sound.broken eof).1 (Option.not_isSome_iff_eq_none.mp (Bool.eq_false_iff.mp fine))

variable {c : Chunked}

theorem closing_eq_false (open' : c.closing = false) :
    c.canceled = false ∧ c.e = none ∧ c.eof = false := by
  obtain ⟨going, unended⟩ := Bool.or_eq_false_iff.mp open'
  obtain ⟨uncanceled, fine⟩ := Bool.or_eq_false_iff.mp going
  exact ⟨uncanceled, Option.not_isSome_iff_eq_none.mp (Bool.eq_false_iff.mp fine), unended⟩

theorem failing_of_ne (failed : c.e ≠ none) : c.failing = true := by
  unfold Chunked.failing
  rw [Option.isSome_iff_ne_none.mpr failed, Bool.or_true]

/-! ### The user and the base stream -/

section

variable (sound : s.Sound web)

include sound

theorem Sound.read (size : Nat) : Sound web { s with c := s.c.read size } := by
  unfold Chunked.read
  split
  · exact sound
  · next taken =>
    obtain ⟨some, -, -, unended⟩ : size ≠ 0 ∧ s.c.awaited ≠ true ∧ s.c.canceled ≠ true ∧
        s.c.eof ≠ true := by
      simpa only [not_or] using taken
    exact { sound with
        ended := fun ended => absurd ended unended
        asked := fun other mem => by
          rcases mem_append.mp mem with before | same
          · exact sound.asked other before
          · rw [mem_singleton.mp same]
            exact Nat.pos_of_ne_zero some }

theorem Sound.await : Sound web { s with c := s.c.await } := by
  unfold Chunked.await
  split
  · exact sound
  · exact { sound with }

theorem Sound.cancel : Sound web { s with c := s.c.cancel } :=
  { sound with
    rejects := fun _ uncanceled => absurd uncanceled nofun
    told := fun _ => rfl
    canceled := fun _ => rfl
    shared := fun _ => rfl
    follows := by
      obtain ⟨taken, phase, received, reads, there⟩ := sound.follows
      exact ⟨taken, phase, received, reads, fun going => there (going.imp_left nofun)⟩
    awaited := fun awaited => ⟨rfl, (sound.awaited awaited).2⟩
    answered := fun _ => rfl }

/-- No read of the reader is made inside of `hdr_cb`. -/
theorem Sound.outside (reading : s.c.reading = true) : s.inHdrCb = false :=
  Bool.eq_false_iff.mpr fun inside => by
    rw [(sound.inside inside).1] at reading
    cases reading

/-- Less is known of a reader that is not in `hdr_cb`. -/
theorem Sound.leave : Sound web { s with inHdrCb := false } :=
  { sound with
    follows := by
      obtain ⟨taken, phase, received, reads, there⟩ := sound.follows
      exact ⟨taken, phase, received, reads, fun going => there (going.imp_right nofun)⟩
    inside := nofun }

/-- The base stream answers the read that was made. -/
theorem Sound.readCb {bytes : Bytes} (reading : s.c.reading = true)
    (fits : bytes.length ≤ chunkedBufSize - s.c.buf.length) :
    Sound web { s with c := s.c.readCb bytes, received := s.received ++ bytes } := by
  obtain ⟨unread, begun, lacks⟩ := sound.inflight reading
  have outside : ¬ s.inHdrCb = true := by
    rw [sound.outside reading]
    nofun
  have unended : s.c.eof = false := Bool.eq_false_iff.mpr fun ended => by
    rw [(sound.ended ended).1] at unread
    cases unread
  have unawaited : s.c.base.awaited = false := Bool.eq_false_iff.mpr fun awaited => by
    rw [(sound.awaited awaited).2] at reading
    cases reading
  have rest : s.c.rest = s.c.buf := by rw [Chunked.rest, begun]; rfl
  have longer : (s.c.buf ++ bytes).drop s.c.nbufread = s.c.rest ++ bytes := by rw [begun, rest]; rfl
  obtain ⟨taken, phase, received, reads, there⟩ := sound.follows
  have follows : s.received ++ bytes = taken ++ (s.c.buf ++ bytes).drop s.c.nbufread := by
    rw [longer, received, append_assoc]
  have room : (s.c.buf ++ bytes).length ≤ chunkedBufSize := by
    have before := sound.room
    rw [length_append]
    omega
  have within : s.c.nbufread ≤ (s.c.buf ++ bytes).length := by rw [begun]; exact Nat.zero_le _
  unfold Chunked.readCb
  split
  · exact { sound with
        room, within
        whole := fun whole => by cases unread.symm.trans whole
        ended := fun ended => by cases unended.symm.trans ended
        follows := ⟨taken, phase, follows, reads, fun going =>
          absurd (show some _ = none from
            (closing_eq_false (going.resolve_right outside)).2.1) (by rintro ⟨⟩)⟩
        inside := fun inside => absurd inside outside
        inflight := by rintro ⟨⟩
        broken := fun _ => ⟨by rintro ⟨⟩, by rintro ⟨⟩, unended⟩
        rejects := fun _ _ _ => .inl rfl
        told := by rintro ⟨⟩
        canceled := fun _ => Bool.or_true _
        awaited := fun awaited => by cases unawaited.symm.trans awaited
        answered := fun _ => by
          show ((s.c.canceled || true) || s.c.eof) = true
          rw [Bool.or_true, Bool.true_or] }
  · exact { sound with
        room, within
        whole := fun whole => by cases unread.symm.trans whole
        ended := fun ended => by cases unended.symm.trans ended
        follows := ⟨taken, phase, follows, reads, there⟩
        inside := fun inside => absurd inside outside
        inflight := by rintro ⟨⟩
        rejects := fun failed uncanceled open' =>
          (sound.rejects failed uncanceled open').imp_right fun refused => refused.append bytes
        awaited := fun awaited => by cases unawaited.symm.trans awaited }

end

theorem keepFirst_eq {first : Option StreamError} (second : Option StreamError) (failed : first ≠ none)
    (other : first ≠ some .canceled) : Chunked.keepFirst first second = first := by
  unfold Chunked.keepFirst
  split
  · exact absurd rfl failed
  · exact absurd rfl other
  · rfl

theorem keepFirst_cases (first second : Option StreamError) :
    Chunked.keepFirst first second = second ∨
      Chunked.keepFirst first second = first ∧ first ≠ none ∧ first ≠ some .canceled := by
  by_cases fine : first = none
  · exact .inl (by rw [fine]; rfl)
  by_cases canceled : first = some .canceled
  · exact .inl (by rw [canceled]; rfl)
  · exact .inr ⟨keepFirst_eq second fine canceled, fine, canceled⟩

/-- `await_cb` keeps the error of the base stream, if it is one. -/
theorem Sound.awaitBase_eq (sound : s.Sound web) {e : Option StreamError}
    (excused : e = none → s.c.base.eof = true) :
    ∃ second,
      s.c.awaitBase e =
        { s.c with base := { s.c.base with awaited := true }, e := Chunked.keepFirst s.c.e second } ∧
      second ≠ some .canceled ∧ (second = none → s.c.failing = true) := by
  refine ⟨_, rfl, ?_, ?_⟩
  · generalize (if s.c.baseCanceled = true ∧ e = some .canceled then none else e) = kept
    split
    · exact nofun
    · assumption
  · by_cases ours : s.c.baseCanceled = true ∧ e = some .canceled
    · exact fun _ => sound.canceled (sound.shared ours.1)
    · rw [if_neg ours]
      split
      · exact nofun
      · exact fun fine => failing_of_ne (sound.broken (excused fine)).1

/-- The base stream ends, with no read of the reader with it. -/
theorem Sound.awaitBase (sound : s.Sound web) {e : Option StreamError} (outside : s.inHdrCb = false)
    (idle : s.c.reading = false) (excused : e = none → s.c.base.eof = true) :
    Sound web { s with c := s.c.awaitBase e } := by
  obtain ⟨second, changed, other, excuse⟩ := sound.awaitBase_eq excused
  rw [changed]
  have failing : s.c.failing = true →
      (s.c.canceled || (Chunked.keepFirst s.c.e second).isSome) = true := by
    intro before
    rcases keepFirst_cases s.c.e second with same | ⟨same, failed, -⟩
    · by_cases canceled : s.c.canceled = true
      · rw [canceled, Bool.true_or]
      · rw [Bool.not_eq_true] at canceled
        rw [Chunked.failing, canceled, Bool.false_or] at before
        by_cases ours : s.c.e = some .canceled
        · rw [sound.told ours] at canceled
          exact absurd canceled nofun
        · rw [keepFirst_eq second (Option.isSome_iff_ne_none.mp before) ours, before, Bool.or_true]
    · rw [same, Option.isSome_iff_ne_none.mpr failed, Bool.or_true]
  have closing : ((s.c.canceled || (Chunked.keepFirst s.c.e second).isSome) || s.c.eof) = true := by
    rcases keepFirst_cases s.c.e second with same | ⟨same, failed, -⟩
    · by_cases fine : second = none
      · rw [failing (excuse fine), Bool.true_or]
      · rw [same, Option.isSome_iff_ne_none.mpr fine, Bool.or_true, Bool.true_or]
    · rw [same, Option.isSome_iff_ne_none.mpr failed, Bool.or_true, Bool.true_or]
  obtain ⟨taken, phase, received, reads, -⟩ := sound.follows
  have entered : ¬ s.inHdrCb = true := by
    rw [outside]
    nofun
  exact { sound with
      follows := ⟨taken, phase, received, reads, fun going =>
        absurd (closing.symm.trans (going.resolve_right entered)) nofun⟩
      inside := fun inside => absurd inside entered
      inflight := fun reading => absurd (idle.symm.trans reading) nofun
      broken := fun eof => by
        obtain ⟨failed, ours, unended⟩ := sound.broken eof
        show Chunked.keepFirst s.c.e second ≠ none ∧ Chunked.keepFirst s.c.e second ≠ some .canceled ∧ _
        rw [keepFirst_eq second failed ours]
        exact ⟨failed, ours, unended⟩
      rejects := fun _ _ open' => absurd open' nofun
      told := fun canceled => by
        rcases keepFirst_cases s.c.e second with same | ⟨same, -, ours⟩
        · exact absurd (same.symm.trans canceled) other
        · exact absurd (same.symm.trans canceled) ours
      canceled := fun canceled => failing (sound.canceled canceled)
      awaited := fun _ => ⟨closing, idle⟩
      answered := fun _ => closing }

/-! ### The end -/

theorem Sound.cancelBase (sound : s.Sound web) (failing : s.c.failing = true) :
    Sound web { s with c := { s.c with
      base := { s.c.base with canceled := true }, baseCanceled := true } } :=
  { sound with
    canceled := fun _ => failing
    shared := fun _ => rfl }

/-- The error that `await_cb` is called with. -/
def finalError (c : Chunked) : Option StreamError :=
  if c.e.isNone && c.canceled then some .canceled else c.e

theorem finalError_of_ne (failed : c.e ≠ none) : finalError c = c.e := by
  unfold finalError
  rw [Option.isNone_eq_false_iff.mpr (Option.isSome_iff_ne_none.mpr failed), Bool.false_and]
  exact if_neg nofun

theorem finalError_eq_none (fine : finalError c = none) : c.e = none ∧ c.canceled = false := by
  unfold finalError at fine
  split at fine
  · exact absurd fine nofun
  · next kept =>
    refine ⟨fine, Bool.eq_false_iff.mpr fun canceled => kept ?_⟩
    rw [fine, canceled]
    rfl

/-- The user is told the outcome, and gets the reads back that were not answered. -/
theorem Sound.answer (sound : s.Sound web) (closing : s.c.closing = true)
    (open' : s.c.awaited = false) :
    Sound web (s.turned
      ({ s.c with awaited := true, e := finalError s.c, reads := [] },
        [.awaited (finalError s.c)])) := by
  have still : ((s.c.canceled || (finalError s.c).isSome) || s.c.eof) = true := by
    rcases Bool.or_eq_true_iff.mp closing with failing | ended
    · rcases Bool.or_eq_true_iff.mp failing with asked | failed
      · rw [asked, Bool.true_or, Bool.true_or]
      · rw [finalError_of_ne (Option.isSome_iff_ne_none.mp failed), failed, Bool.or_true,
          Bool.true_or]
    · rw [ended, Bool.or_true]
  have told : s.given.flatMap Given.items =
      (s.given ++ [Given.awaited (finalError s.c)]).flatMap Given.items := by
    rw [flatMap_append]
    exact (append_nil _).symm
  exact { sound with
    ended := fun ended => by
      obtain ⟨read, -, body⟩ := sound.ended ended
      exact ⟨read, rfl, told ▸ body⟩
    asked := nofun
    follows := by
      obtain ⟨taken, phase, received, reads, -⟩ := sound.follows
      exact ⟨taken, phase, received, told ▸ reads, fun going =>
        absurd (still.symm.trans (going.resolve_right nofun)) nofun⟩
    inside := nofun
    ordered := sound.ordered.closes open' ⟨rfl, rfl⟩ fun fine => by
      obtain ⟨none, uncanceled⟩ := finalError_eq_none fine
      rw [Chunked.closing, Chunked.failing, none, uncanceled] at closing
      exact closing
    broken := fun eof => by
      obtain ⟨failed, ours, unended⟩ := sound.broken eof
      show finalError s.c ≠ none ∧ finalError s.c ≠ some .canceled ∧ _
      rw [finalError_of_ne failed]
      exact ⟨failed, ours, unended⟩
    rejects := fun failed uncanceled unawaited => by
      refine sound.rejects (fun fine => failed ?_) uncanceled unawaited
      show finalError s.c = none
      have uncanceled : s.c.canceled = false := uncanceled
      rw [finalError, fine, uncanceled]
      rfl
    told := fun canceled => by
      by_cases fine : s.c.e = none
      · by_cases asked : s.c.canceled = true
        · exact asked
        · rw [Bool.not_eq_true] at asked
          have same : finalError s.c = none := by rw [finalError, fine, asked]; rfl
          exact absurd (same.symm.trans canceled) nofun
      · exact sound.told ((finalError_of_ne fine).symm.trans canceled)
    canceled := fun canceled => by
      show (s.c.canceled || (finalError s.c).isSome) = true
      rcases Bool.or_eq_true_iff.mp (sound.canceled canceled) with asked | failed
      · rw [asked, Bool.true_or]
      · rw [finalError_of_ne (Option.isSome_iff_ne_none.mp failed), failed, Bool.or_true]
    awaited := fun awaited => ⟨still, (sound.awaited awaited).2⟩
    answered := fun _ => still }

theorem Sound.quiet (sound : Sound web { s with c, inHdrCb := false }) :
    Sound web (s.turned (c, [])) := by
  unfold turned
  rw [append_nil]
  exact sound

/-- A reader that closes has closed, or it cancels its base stream if it has to, and may tell its
user the end then. -/
theorem close_cases (c : Chunked) {motive : Chunked × List Given → Prop}
    (told : c.awaited = true → motive (c, []))
    (closes : c.awaited = false → ∀ next : Chunked,
      ¬(!c.base.awaited && !c.base.canceled && c.failing) = true ∧ next = c ∨
        (!c.base.awaited && !c.base.canceled && c.failing) = true ∧
          next = { c with base := { c.base with canceled := true }, baseCanceled := true } →
      motive (next, []) ∧ motive ({ next with awaited := true, e := finalError next, reads := [] },
        [.awaited (finalError next)])) : motive c.close := by
  have finish : ∀ next : Chunked, motive (next, []) ∧
      motive ({ next with awaited := true, e := finalError next, reads := [] },
        [.awaited (finalError next)]) →
      motive (if next.reading then (next, [])
        else if !next.base.awaited && !next.detached then (next, [])
        else if !next.awaitCb then (next, [])
        else ({ next with awaited := true, e := finalError next, reads := [] },
          [.awaited (finalError next)])) := by
    rintro next ⟨quiet, tells⟩
    split
    · exact quiet
    split
    · exact quiet
    split
    · exact quiet
    · exact tells
  unfold Chunked.close
  split
  · next awaited => exact told awaited
  · next open' =>
    rw [Bool.not_eq_true] at open'
    split
    · next cancels => exact finish _ (closes open' _ (.inr ⟨cancels, rfl⟩))
    · next kept => exact finish _ (closes open' _ (.inl ⟨kept, rfl⟩))

theorem Sound.close (sound : s.Sound web) (closing : s.c.closing = true) :
    Sound web (s.turned s.c.close) := by
  refine @close_cases s.c (fun result => Sound web (s.turned result)) (fun _ => sound.leave.quiet) ?_
  rintro open' next (⟨-, rfl⟩ | ⟨cancels, rfl⟩)
  · exact ⟨sound.leave.quiet, sound.answer closing open'⟩
  · have canceled := sound.cancelBase (Bool.and_eq_true_iff.mp cancels).2
    exact ⟨canceled.leave.quiet, canceled.answer closing open'⟩

/-! ### The chunks -/

theorem phase_of_open (chunks : c.chunksDone = false) (lines : c.trailerRead = false) :
    c.phase = if c.firstChunkParsed then .data (c.nchunkbytes - c.nchunkread) else .start := by
  rw [Chunked.phase, chunks, lines]
  rfl

theorem leads_of_read (chunks : c.chunksDone = false) (lines : c.trailerRead = false)
    (read : c.nchunkbytes = 0) : Leads c.phase c.lead := by
  rw [phase_of_open chunks lines, Chunked.lead]
  split
  · rw [read, Nat.zero_sub]
    exact .data
  · exact .start

variable {text : Bytes} {items : List ChunkedItem} {phase : ChunkedPhase}

theorem refused_of_full {taken : Bytes} (reads : ChunkedReads web .start taken items phase)
    (lacks : Chunked.Lacks web phase text) (full : chunkedBufSize ≤ text.length) :
    Refused web .start (taken ++ text) := by
  intro more whole body
  rw [append_assoc] at body
  obtain ⟨_, -, rest⟩ := residual reads body
  exact absurd (lacks _ _ rest).2 (Nat.not_lt.mpr full)

/-- A read of the base stream is made where the body lacks something. -/
theorem Sound.fillBuffer (sound : s.Sound web) (open' : s.c.closing = false)
    (lines : s.c.trailerRead = false) (lacks : Chunked.Lacks web s.c.phase s.c.rest) (what : String) :
    Sat (s.c.fillBuffer what) (fun next => Sound web (s.turned (next, []))) fun _ => False := by
  refine (Chunked.fillBuffer_sat (sound.base_open open') what).mono ?_
  obtain ⟨uncanceled, fine, unended⟩ := closing_eq_false open'
  obtain ⟨taken, phase, received, reads, there⟩ := sound.follows
  have bound : s.c.rest.length ≤ chunkedBufSize := by
    rw [Chunked.rest_length]
    exact Nat.le_trans (Nat.sub_le _ _) sound.room
  rintro next (⟨rfl, full⟩ | rfl)
  · have refused := refused_of_full reads (there (.inl open') ▸ lacks) full
    have closing : ((s.c.canceled || true) || s.c.eof) = true := by rw [Bool.or_true, Bool.true_or]
    exact Sound.quiet { sound with
        room := bound
        within := Nat.zero_le _
        whole := fun whole => absurd (lines.symm.trans whole) nofun
        follows := ⟨taken, phase, received, reads, fun going =>
          absurd (closing.symm.trans (going.resolve_right nofun)) nofun⟩
        inside := nofun
        inflight := fun reading => ⟨lines, rfl, lacks⟩
        broken := fun eof => absurd fine (sound.broken eof).1
        rejects := fun _ _ _ => .inr (received ▸ refused)
        told := nofun
        canceled := fun _ => Bool.or_true _
        awaited := fun awaited => ⟨closing, (sound.awaited awaited).2⟩
        answered := fun _ => closing }
  · exact Sound.quiet { sound with
        room := bound
        within := Nat.zero_le _
        whole := fun whole => absurd (lines.symm.trans whole) nofun
        follows := ⟨taken, phase, received, reads, fun _ => there (.inl open')⟩
        inside := nofun
        inflight := fun _ => ⟨lines, rfl, lacks⟩
        awaited := fun awaited => by
          rw [(sound.awaited awaited).1] at open'
          exact absurd open' nofun }

theorem chunkedToken_nonempty {next : ChunkedPhase}
    (token : ChunkedToken web phase text items next) : text ≠ [] := by
  cases token with
  | line leads is fits => exact fun none => web.chunk.nonempty is (append_eq_nil_iff.mp none).2
  | byte => exact nofun
  | header is named fits => exact web.hdrLine.nonempty is
  | ending is unnamed fits => exact web.hdrLine.nonempty is

theorem lacks_nil (open' : phase ≠ .finished) : Chunked.Lacks web phase [] := by
  rintro more items reads
  refine ⟨?_, by decide⟩
  rintro rfl
  obtain ⟨first, rest, next, meaning, others, empty, token, -⟩ := reads.begins open'
  exact chunkedToken_nonempty token (append_eq_nil_iff.mp empty.symm).1

/-- A line of a chunk that is not complete is lacking the rest of it. -/
theorem lacks_line (leads : Leads c.phase c.lead)
    (short : ∀ more line size tail, c.rest ++ more = c.lead ++ line ++ tail →
      web.chunk.Line line size → c.rest.length < (c.lead ++ line).length) :
    Chunked.Lacks web c.phase c.rest := by
  intro more items reads
  obtain ⟨line, size, tail, whole, is, fits⟩ := begins_line leads reads
  have less := short more line size tail whole is
  refine ⟨?_, Nat.lt_of_lt_of_le less fits⟩
  rintro rfl
  have length := congrArg length whole
  rw [append_nil, @length_append _ (c.lead ++ line)] at length
  omega

section

variable (sound : s.Sound web)

include sound

/-- Where a chunk goes on, its bytes are readable unless their end wraps around, and then the
buffer holds less than the chunk. -/
theorem Sound.lacks_data (chunks : s.c.chunksDone = false) (lines : s.c.trailerRead = false)
    (unreadable : (if s.c.nbufread + (s.c.nchunkbytes - s.c.nchunkread) ≤ sizeMax then
      s.c.rest.take (s.c.nchunkbytes - s.c.nchunkread) else []) = [])
    (inside : ¬ (s.c.nchunkread = 0 ∧ s.c.nbufread < s.c.buf.length)) :
    Chunked.Lacks web s.c.phase s.c.rest := by
  have length := s.c.rest_length
  have room := sound.room
  by_cases empty : s.c.rest = []
  · rw [empty]
    refine lacks_nil ?_
    rw [phase_of_open chunks lines]
    split <;> nofun
  · have left : s.c.nbufread < s.c.buf.length := by
      have positive := length_pos_iff.mpr empty
      omega
    have going : s.c.nchunkread < s.c.nchunkbytes :=
      sound.counted.resolve_right fun none => inside ⟨none.2, left⟩
    have parsed : s.c.firstChunkParsed = true := by
      refine Bool.not_eq_false _ ▸ fun first => ?_
      rw [(sound.unstarted first).1] at going
      exact Nat.not_lt_zero _ going
    have wraps : ¬ s.c.nbufread + (s.c.nchunkbytes - s.c.nchunkread) ≤ sizeMax := by
      intro fits
      rw [if_pos fits, take_eq_nil_iff] at unreadable
      exact unreadable.elim (fun none => by omega) empty
    rw [phase_of_open chunks lines, parsed]
    intro more items reads
    have longer := longer reads
    have sized := sound.sized
    unfold chunkedBufSize at room ⊢
    unfold sizeMax at wraps sized
    rw [length_append] at longer
    refine ⟨?_, by omega⟩
    rintro rfl
    rw [length_nil] at longer
    omega

/-- A read of the user is answered with bytes of a chunk. -/
theorem Sound.passAlong (open' : s.c.closing = false) (idle : s.c.reading = false)
    (chunks : s.c.chunksDone = false) (lines : s.c.trailerRead = false) {sub tail : Bytes}
    {reads : List Nat} (asked : ∀ size ∈ reads, 0 < size) (front : s.c.rest = sub ++ tail)
    (some : sub ≠ []) (bound : sub.length ≤ s.c.nchunkbytes - s.c.nchunkread) :
    Sound web (s.turned ({ s.c with reads }.passAlong sub, [.data sub])) := by
  obtain ⟨buf, nbufread, nchunkbytes, nchunkread, changed, rest, within, shorter, smaller, counted,
    left⟩ := Chunked.passAlong_eq (c := { s.c with reads }) front some
  have positive := length_pos_iff.mpr some
  have parsed : s.c.firstChunkParsed = true := by
    refine Bool.not_eq_false _ ▸ fun first => ?_
    rw [(sound.unstarted first).1, Nat.zero_sub] at bound
    omega
  obtain ⟨-, -, unended⟩ := closing_eq_false open'
  have unawaited : s.c.awaited = false := Bool.eq_false_iff.mpr fun awaited => by
    rw [sound.answered awaited] at open'
    exact absurd open' nofun
  obtain ⟨taken, phase, received, before, there⟩ := sound.follows
  have data : phase = .data (s.c.nchunkbytes - s.c.nchunkread) := by
    rw [there (.inl open'), phase_of_open chunks lines, parsed]
    rfl
  rw [changed]
  exact { sound with
      room := Nat.le_trans shorter sound.room
      within
      counted
      sized := Nat.le_trans smaller sound.sized
      unstarted := fun first => absurd (parsed.symm.trans first) nofun
      chunked := fun done => absurd (chunks.symm.trans done) nofun
      whole := fun whole => absurd (lines.symm.trans whole) nofun
      ended := fun ended => absurd (unended.symm.trans ended) nofun
      asked
      follows := by
        refine ⟨taken ++ sub, .data (nchunkbytes - nchunkread), ?_, ?_, fun _ => ?_⟩
        · show s.received = taken ++ sub ++ buf.drop nbufread
          rw [rest, received, front, append_assoc]
        · have more := before.append (data ▸ chunkedReads_data bound)
          unfold turned
          rw [flatMap_append, left]
          show ChunkedReads web _ _ (_ ++ (sub.map _ ++ [])) _
          rw [append_nil]
          exact more
        · show _ = if s.c.trailerRead then ChunkedPhase.finished else if s.c.chunksDone then .trailer
            else if s.c.firstChunkParsed then .data (nchunkbytes - nchunkread) else .start
          rw [lines, chunks, parsed]
          rfl
      inside := nofun
      ordered := sound.ordered.content ⟨unended, unawaited⟩ ⟨unended, unawaited⟩ fun call mem => by
        rw [mem_singleton.mp mem]
        trivial
      inflight := fun reading => absurd (idle.symm.trans reading) nofun }

/-- The line of a chunk is read. -/
theorem Sound.parsed (open' : s.c.closing = false) (idle : s.c.reading = false)
    (lines : s.c.trailerRead = false) (leads : Leads s.c.phase s.c.lead)
    (fresh : s.c.nchunkread = 0) {line tail : Bytes} {size : Nat}
    (front : s.c.rest = s.c.lead ++ line ++ tail) (is : web.chunk.Line line size) :
    Sound web (s.turned ({ s.c with
      firstChunkParsed := true
      nbufread := s.c.nbufread + (s.c.lead ++ line).length
      nchunkbytes := size
      chunksDone := size = 0 }, [])) := by
  have length := congrArg length front
  rw [Chunked.rest_length, @length_append _ (s.c.lead ++ line)] at length
  have within := sound.within
  have room := sound.room
  obtain ⟨digits, extensions, -, -, -, sized, -⟩ := web.chunk_line.mp is
  obtain ⟨-, -, unended⟩ := closing_eq_false open'
  obtain ⟨taken, phase, received, before, there⟩ := sound.follows
  have rest : s.c.buf.drop (s.c.nbufread + (s.c.lead ++ line).length) = tail := by
    rw [← drop_drop, ← Chunked.rest, front, drop_left]
  exact Sound.quiet { sound with
      within := by
        show s.c.nbufread + (s.c.lead ++ line).length ≤ s.c.buf.length
        omega
      counted := by
        show s.c.nchunkread < size ∨ size = 0 ∧ s.c.nchunkread = 0
        omega
      sized
      unstarted := by rintro ⟨⟩
      chunked := of_decide_eq_true
      whole := fun whole => by cases lines.symm.trans whole
      ended := fun ended => by cases unended.symm.trans ended
      follows := by
        refine ⟨taken ++ (s.c.lead ++ line), afterLine size, ?_, ?_, fun _ => ?_⟩
        · show s.received = _ ++ s.c.buf.drop (s.c.nbufread + (s.c.lead ++ line).length)
          rw [rest, received, front, append_assoc taken]
        · have token : ChunkedToken web phase (s.c.lead ++ line) [] (afterLine size) :=
            .line (there (.inl open') ▸ leads) is (by omega)
          have more := before.concat token
          rw [append_nil] at more
          exact more
        · show _ = if s.c.trailerRead then ChunkedPhase.finished else if decide (size = 0) then .trailer
            else .data (size - s.c.nchunkread)
          rw [lines, fresh, Nat.sub_zero, afterLine]
          by_cases last : size = 0
          · rw [if_pos last, decide_eq_true last]
            rfl
          · rw [if_neg last, decide_eq_false last]
            rfl
      inside := by rintro ⟨⟩
      inflight := fun reading => by cases idle.symm.trans reading }

theorem Sound.refused (going : s.c.closing = false ∨ s.inHdrCb = true)
    (refused : Refused web s.c.phase s.c.rest) : Refused web .start s.received := by
  intro more items body
  obtain ⟨taken, phase, received, before, there⟩ := sound.follows
  rw [received, append_assoc] at body
  obtain ⟨left, -, rest⟩ := residual before body
  exact refused more left (there going ▸ rest)

/-- The body is refused. -/
theorem Sound.fail (fine : s.c.e = none) (idle : s.c.reading = false) {nbufread : Nat}
    (within : nbufread ≤ s.c.buf.length) (lines : s.c.trailerRead = false)
    (taken : ∃ taken phase, s.received = taken ++ s.c.buf.drop nbufread ∧
      ChunkedReads web .start taken (s.given.flatMap Given.items) phase) (error : Derr)
    (refused : Refused web .start s.received) :
    Sound web (s.turned ({ s.c with nbufread, e := some (.raised error) }, [])) := by
  have closing : ((s.c.canceled || true) || s.c.eof) = true := by rw [Bool.or_true, Bool.true_or]
  obtain ⟨taken, phase, received, before⟩ := taken
  exact Sound.quiet { sound with
      within
      whole := fun whole => absurd (lines.symm.trans whole) nofun
      follows := ⟨taken, phase, received, before, fun going =>
        absurd (closing.symm.trans (going.resolve_right nofun)) nofun⟩
      inside := nofun
      inflight := fun reading => absurd (idle.symm.trans reading) nofun
      broken := fun eof => absurd fine (sound.broken eof).1
      rejects := fun _ _ _ => .inr refused
      told := nofun
      canceled := fun _ => Bool.or_true _
      awaited := fun awaited => ⟨closing, (sound.awaited awaited).2⟩
      answered := fun _ => closing }

end

/-- The end of what is readable does not wrap around where a chunk begins. -/
def Unwrapped (c : Chunked) : Prop :=
  c.closing = false → c.reading = false → c.reads ≠ [] → c.nchunkread = 0 → c.nbufread < c.buf.length →
    c.nbufread + c.nchunkbytes ≤ sizeMax

/-- The chunks are delivered as far as they are in the buffer. -/
theorem Sound.advanceChunks (sound : s.Sound web) (open' : s.c.closing = false)
    (chunks : s.c.chunksDone = false) (unwrapped : Unwrapped s.c) :
    Sat (s.c.advanceChunks web) (fun result => Sound web (s.turned result)) fun _ => False := by
  have lines : s.c.trailerRead = false := Bool.eq_false_iff.mpr fun whole => by
    rw [(sound.whole whole).1] at chunks
    exact absurd chunks nofun
  have fill : Chunked.Lacks web s.c.phase s.c.rest →
      Sat (s.c.fillBuffer "chunk" >>= fun next => pure (next, ([] : List Given)))
        (fun result => Sound web (s.turned result)) fun _ => False := by
    intro lacks
    exact (sound.fillBuffer open' lines lacks "chunk").bind fun next after => after
  unfold Chunked.advanceChunks
  split
  · exact sound.leave.quiet
  · next idle =>
    rw [Bool.not_eq_true] at idle
    split
    · exact sound.leave.quiet
    · next size reads waiting =>
      rw [Chunked.getReadable_eq sound.within sound.le sound.sized sound.room]
      generalize spelled : (if s.c.nbufread + (s.c.nchunkbytes - s.c.nchunkread) ≤ sizeMax then
        s.c.rest.take (s.c.nchunkbytes - s.c.nchunkread) else []) = readable
      show Sat (if 0 < readable.length then _ else _) _ _
      split
      · next ready =>
        rw [length_pos_iff] at ready
        have asked : ∀ other ∈ size :: reads, 0 < other := waiting ▸ sound.asked
        split at spelled
        · subst spelled
          have some : (s.c.rest.take (s.c.nchunkbytes - s.c.nchunkread)).take size ≠ [] := by
            rw [Ne, take_eq_nil_iff, not_or]
            exact ⟨Nat.ne_of_gt (asked size mem_cons_self), ready⟩
          have front : s.c.rest = (s.c.rest.take (s.c.nchunkbytes - s.c.nchunkread)).take size ++
              s.c.rest.drop (min size (s.c.nchunkbytes - s.c.nchunkread)) := by
            rw [take_take, take_append_drop]
          refine sound.passAlong open' idle chunks lines
            (fun other mem => asked other (.tail _ mem)) front some ?_
          rw [take_take]
          exact Nat.le_trans (length_take_le _ _) (Nat.min_le_right _ _)
        · exact absurd spelled.symm ready
      · next unreadable =>
        rw [length_pos_iff, not_not] at unreadable
        rw [unreadable] at spelled
        split
        · next begins =>
          have read : s.c.nchunkbytes = 0 := by
            have fits := unwrapped open' idle (by rw [waiting]; nofun) begins.1 begins.2
            rw [begins.1, Nat.sub_zero, if_pos fits, take_eq_nil_iff] at spelled
            refine spelled.resolve_right fun empty => ?_
            have length := s.c.rest_length
            rw [empty, length_nil] at length
            omega
          have leads := leads_of_read chunks lines read
          have header := Chunked.parseChunkHeader_sat web s.c
          split
          · next error failed =>
            rw [failed] at header
            have refused : Refused web s.c.phase s.c.rest := by
              intro more items body
              obtain ⟨line, size, tail, front, is, -⟩ := begins_line leads body
              exact header more line size tail front is
            obtain ⟨taken, phase, received, before, -⟩ := sound.follows
            exact sound.fail (closing_eq_false open').2.1 idle sound.within lines
              ⟨taken, phase, received, before⟩ error (sound.refused (.inl open') refused)
          · next next found =>
            rw [found] at header
            obtain ⟨line, size, tail, front, is, rfl⟩ := header
            exact sound.parsed open' idle lines leads begins.1 front is
          · next short =>
            rw [short] at header
            exact fill (lacks_line leads header)
        · next inside => exact fill (sound.lacks_data chunks lines spelled inside)

/-! ### The trailer -/

theorem phase_trailer (chunks : c.chunksDone = true) (lines : c.trailerRead = false) :
    c.phase = .trailer := by
  rw [Chunked.phase, chunks, lines]
  rfl

theorem lacks_hdrLine (asks : web.hdrLine.parse text = .more) :
    Chunked.Lacks web .trailer text := by
  intro more items reads
  obtain ⟨line, hdr, tail, whole, is, fits⟩ := begins_hdrLine reads
  have less := web.hdrLine.short_of_more asks is whole
  refine ⟨?_, Nat.lt_of_lt_of_le less fits⟩
  rintro rfl
  have length := congrArg length whole
  rw [append_nil, length_append] at length
  omega

theorem refused_hdrLine {error : Derr} (failed : web.hdrLine.parse text = .failed error) :
    Refused web .trailer text := by
  intro more items reads
  obtain ⟨line, hdr, tail, whole, is, -⟩ := begins_hdrLine reads
  exact web.hdrLine.not_of_failed failed whole is

theorem refused_of_finished {taken : Bytes} (reads : ChunkedReads web .start taken items .finished)
    (extra : text ≠ []) : Refused web .start (taken ++ text) := by
  intro more whole body
  rw [append_assoc] at body
  obtain ⟨left, -, rest⟩ := residual reads body
  generalize spelled : text ++ more = after at rest
  cases rest with
  | nil => exact extra (append_eq_nil_iff.mp spelled).1
  | cons token => exact chunkedToken_finished _ _ _ token

/-- A line of the trailer is read, in a reader that is open or goes on after `hdr_cb`. -/
theorem Sound.trailerLine (sound : s.Sound web) (going : s.c.closing = false ∨ s.inHdrCb = true)
    (fine : s.c.e = none) (idle : s.c.reading = false) (chunks : s.c.chunksDone = true)
    (lines : s.c.trailerRead = false)
    (fills : web.hdrLine.parse s.c.rest = .more → s.c.closing = false) :
    Sat (s.c.trailerLine web) (fun result => Sound web (s.turned result)) fun _ => False := by
  have phase := phase_trailer chunks lines
  have unended : s.c.eof = false := Bool.eq_false_iff.mpr fun ended => by
    rw [(sound.ended ended).1] at lines
    cases lines
  have unawaited : s.c.awaited = false := by
    rcases going with open' | inside
    · refine Bool.eq_false_iff.mpr fun awaited => ?_
      rw [sound.answered awaited] at open'
      cases open'
    · exact (sound.inside inside).2.2.2.2
  unfold Chunked.trailerLine
  obtain ⟨taken, before, received, reads, there⟩ := sound.follows
  rw [there going, phase] at reads
  cases found : web.hdrLine.parse (s.c.buf.drop s.c.nbufread) with
  | more =>
    have lacks : Chunked.Lacks web s.c.phase s.c.rest := phase ▸ lacks_hdrLine found
    exact (sound.fillBuffer (fills found) lines lacks "trailer").bind fun next after => after
  | failed error =>
    have refused := sound.refused going (phase ▸ refused_hdrLine found)
    exact sound.fail fine idle sound.within lines ⟨taken, _, received, reads⟩ error refused
  | done used hdr =>
    obtain ⟨line, tail, front, rfl, -, is⟩ := web.hdrLine.parse_done found
    have rest : s.c.buf.drop (s.c.nbufread + line.length) = tail := by
      rw [← drop_drop, front, drop_left]
    have split : s.received = (taken ++ line) ++ tail := by
      rw [received, Chunked.rest, front, append_assoc]
    have length := congrArg length front
    rw [length_drop, length_append] at length
    have positive := length_pos_iff.mpr (web.hdrLine.nonempty is)
    have room := sound.room
    have within : s.c.nbufread + line.length ≤ s.c.buf.length := by omega
    dsimp only
    split
    · next named =>
      have more := reads.concat (.header is named (by omega))
      exact { sound with
          within
          whole := fun whole => by cases lines.symm.trans whole
          ended := fun ended => by cases unended.symm.trans ended
          follows := by
            refine ⟨taken ++ line, .trailer, split.trans (congrArg _ rest.symm), ?_, fun _ => ?_⟩
            · unfold turned
              rw [flatMap_append]
              exact more
            · exact (phase_trailer chunks lines).symm
          inside := fun _ => ⟨idle, chunks, lines, fine, unawaited⟩
          ordered := sound.ordered.content ⟨unended, unawaited⟩ ⟨unended, unawaited⟩
            fun call mem => by
              rw [mem_singleton.mp mem]
              trivial
          inflight := fun reading => by cases idle.symm.trans reading }
    next last =>
    rw [not_not] at last
    have more := reads.concat (.ending is last (by omega))
    rw [append_nil] at more
    split
    · next extra =>
      have left : tail ≠ [] := by
        rintro rfl
        rw [length_nil] at length
        omega
      exact sound.fail fine idle within lines ⟨taken ++ line, _, by rw [rest, split], more⟩ _
        (split ▸ refused_of_finished more left)
    · next whole =>
      have none : tail = [] := by
        refine length_eq_zero_iff.mp ?_
        omega
      exact Sound.quiet { sound with
          within
          whole := fun _ => ⟨chunks, rest.trans none⟩
          ended := fun ended => by cases unended.symm.trans ended
          follows := ⟨taken ++ line, .finished, by rw [split, Chunked.rest, rest], more, fun _ => rfl⟩
          inside := by rintro ⟨⟩
          inflight := fun reading => by cases idle.symm.trans reading }

/-! ### The end of the body -/

/-- All reads that wait are answered with the end, when the body is whole. -/
theorem Sound.respondEof (sound : s.Sound web) (open' : s.c.closing = false)
    (lines : s.c.trailerRead = true) (detaches : Bool) :
    Sound web (s.turned (s.c.respondEof detaches)) := by
  unfold Chunked.respondEof
  split
  · exact sound.leave.quiet
  · next waiting =>
    obtain ⟨uncanceled, fine, unended⟩ := closing_eq_false open'
    have unawaited : s.c.awaited = false := Bool.eq_false_iff.mpr fun awaited => by
      rw [sound.answered awaited] at open'
      exact absurd open' nofun
    have closing : (s.c.failing || true) = true := Bool.or_true _
    obtain ⟨taken, phase, received, reads, there⟩ := sound.follows
    have same : (s.given ++ [Given.eof s.c.reads.length]).flatMap Given.items =
        s.given.flatMap Given.items := by
      rw [flatMap_append]
      exact append_nil _
    have body : ChunkedBody web s.received (s.given.flatMap Given.items) := by
      have finished : s.c.phase = .finished := by
        rw [Chunked.phase, lines]
        rfl
      rw [there (.inl open'), finished] at reads
      rw [received, (sound.whole lines).2, append_nil]
      exact reads
    exact { sound with
        ended := fun _ => ⟨lines, rfl, same ▸ body⟩
        asked := nofun
        follows := ⟨taken, phase, received, same ▸ reads, fun going =>
          absurd (closing.symm.trans (going.resolve_right nofun)) nofun⟩
        inside := nofun
        ordered := sound.ordered.ends ⟨unended, unawaited⟩ ⟨rfl, unawaited⟩
          (length_pos_iff.mpr waiting)
        broken := fun eof => absurd fine (sound.broken eof).1
        awaited := fun awaited => ⟨closing, (sound.awaited awaited).2⟩
        answered := fun _ => closing }

/-! ### Steps and runs -/

/-- A turn of `advance_state` from its beginning. -/
theorem Sound.advanceState (sound : s.Sound web) (unwrapped : Unwrapped s.c) (detaches : Bool) :
    Sat (s.c.advanceState web detaches) (fun result => Sound web (s.turned result))
      fun _ => False := by
  unfold Chunked.advanceState
  split
  · next closing => exact sound.close closing
  · next open' =>
    rw [Bool.not_eq_true] at open'
    split
    · next chunks =>
      rw [Bool.not_eq_true'] at chunks
      exact sound.advanceChunks open' chunks unwrapped
    · next chunks =>
      rw [Bool.not_eq_true', Bool.not_eq_false] at chunks
      split
      · next lines =>
        rw [Bool.not_eq_true'] at lines
        unfold Chunked.advanceTrailer
        split
        · exact sound.leave.quiet
        · next idle =>
          rw [Bool.not_eq_true] at idle
          exact sound.trailerLine (.inl open') (closing_eq_false open').2.1 idle chunks lines
            fun _ => open'
      · next lines =>
        rw [Bool.not_eq_true', Bool.not_eq_false] at lines
        exact sound.respondEof open' lines detaches

/-- The user has canceled in `hdr_cb`, and the next line of the trailer is not complete. -/
def Abandoned (web : Web) (s : ChunkedRun) : Prop :=
  s.inHdrCb = true ∧ s.c.canceled = true ∧ web.hdrLine.parse s.c.rest = .more

/-- What must not happen: a turn in which the end of what is readable wraps around where a chunk
begins, a turn that goes on with an incomplete line when the user has canceled in `hdr_cb`, and an
end of the base stream that has a read of the reader. -/
def Harmless (web : Web) (s : ChunkedRun) : ChunkedEvent → Prop
  | .turn _ => Unwrapped s.c ∧ ¬ Abandoned web s
  | .baseAwait _ => s.c.reading = false
  | _ => True

/-- A turn of `advance_state`, from its beginning or from its last callback. -/
theorem Sound.advance (sound : s.Sound web) (unwrapped : Unwrapped s.c)
    (pursued : ¬ Abandoned web s) (detaches : Bool) :
    Sat (s.advance web detaches) (fun result => Sound web (s.turned result)) fun _ => False := by
  unfold ChunkedRun.advance
  split
  · next inside =>
    obtain ⟨idle, chunks, lines, fine, -⟩ := sound.inside inside
    refine sound.trailerLine (.inr inside) fine idle chunks lines fun asks => ?_
    have uncanceled : s.c.canceled = false :=
      Bool.eq_false_iff.mpr fun canceled => pursued ⟨inside, canceled, asks⟩
    have unended : s.c.eof = false := Bool.eq_false_iff.mpr fun ended => by
      rw [(sound.ended ended).1] at lines
      cases lines
    rw [Chunked.closing, Chunked.failing, uncanceled, fine, unended]
    rfl
  · exact sound.advanceState unwrapped detaches

theorem step_sound (s : ChunkedRun) (event : ChunkedEvent) (sound : s.Sound web)
    (harmless : s.Harmless web event) : Sat (s.step web event) (Sound web) (· = .contract) := by
  cases event with
  | read size => exact sound.read size
  | cancel => exact sound.cancel
  | await => exact sound.await
  | turn detaches =>
    have turn := sound.advance harmless.1 harmless.2 detaches
    show Sat (s.advance web detaches >>= fun result => pure (s.turned result)) _ _
    cases result : s.advance web detaches with
    | ok next => exact turn.of_ok result
    | error fault => exact (turn.of_error result).elim
  | baseRead bytes =>
    show Sat (if _ then _ else _) _ _
    split
    · next asked => exact sound.readCb asked.1 asked.2.2
    · rfl
  | baseAwait e =>
    show Sat (if _ then _ else _) _ _
    split
    · next excused => exact sound.awaitBase excused.1 harmless excused.2.2
    · rfl

end ChunkedRun

end Splintermail
