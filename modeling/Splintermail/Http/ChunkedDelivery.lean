/-
This file proves what the reader of chunked bodies delivers.

What holds along its runs says what its user was given. That it goes on as long as it can is
counted: every turn that does something leaves less to do, and a reader that has a read to
answer, and is not waiting for the base stream, does something in its turn.
-/

import Mathlib.Data.List.TakeWhile
import Splintermail.Http.ChunkedSound

namespace Splintermail

open List Run
open Outcome (Sat)

open Framing

/-! ### The work that is left -/

/-- What the turns of a reader still have to do, as long as nothing is added. -/
def Chunked.work (c : Chunked) : Nat :=
  c.reads.length + (c.buf.length - c.nbufread) + (!c.reading).toNat + (!c.chunksDone).toNat +
    (!c.trailerRead).toNat + (!c.eof).toNat + c.e.isNone.toNat + (!c.base.canceled).toNat +
    (!c.awaited).toNat

namespace ChunkedRun

variable {web : Web} {s : ChunkedRun} {c : Chunked}

theorem work_fillBuffer {what : String} (fine : c.e = none) (idle : c.reading = false) :
    Sat (c.fillBuffer what) (fun next => next.work < c.work) fun _ => True := by
  have left : (c.buf.drop c.nbufread).length = c.buf.length - c.nbufread := c.rest_length
  unfold Chunked.fillBuffer
  dsimp only
  split
  · simp only [Chunked.work, Outcome.sat_ok, fine, left, Option.isNone_none, Option.isNone_some,
      Bool.toNat_true, Bool.toNat_false]
    omega
  split
  · trivial
  · simp only [Chunked.work, Outcome.sat_ok, idle, left, Bool.not_true, Bool.not_false,
      Bool.toNat_true, Bool.toNat_false]
    omega

/-- A reader of chunks that has a read to answer does something. -/
theorem work_advanceChunks (fine : c.e = none) (idle : c.reading = false)
    (chunks : c.chunksDone = false) (waiting : c.reads ≠ []) :
    Sat (c.advanceChunks web) (fun result => result.1.work < c.work) fun _ => True := by
  have fill : Sat (c.fillBuffer "chunk" >>= fun next => pure (next, ([] : List Given)))
      (fun result => result.1.work < c.work) fun _ => True :=
    (work_fillBuffer fine idle).bind fun next less => less
  unfold Chunked.advanceChunks
  rw [if_neg (by rw [idle]; nofun)]
  split
  · next none => exact absurd none waiting
  · next size reads spelled =>
    cases ready : c.getReadable with
    | error fault => trivial
    | ok readable =>
      show Sat (if 0 < readable.length then _ else _) _ _
      split
      · show Chunked.work _ < Chunked.work _
        unfold Chunked.passAlong Chunked.work
        rw [spelled]
        dsimp only
        split
        · split
          · simp only [length_cons, length_nil]
            omega
          · simp only [length_cons, length_nil]
            omega
        · split
          · simp only [length_cons]
            omega
          · simp only [length_cons]
            omega
      split
      · next begins =>
        have header := Chunked.parseChunkHeader_sat web c
        split
        · simp only [Chunked.work, Outcome.sat_ok, fine, Option.isNone_none, Option.isNone_some,
            Bool.toNat_true, Bool.toNat_false]
          omega
        · next next found =>
          rw [found] at header
          obtain ⟨line, size, tail, front, is, rfl⟩ := header
          have positive := length_pos_iff.mpr (web.chunk.nonempty is)
          have less := Bool.toNat_le (!decide (size = 0))
          simp only [Chunked.work, Outcome.sat_ok, chunks, length_append, Bool.not_false,
            Bool.toNat_true]
          omega
        · exact fill
      · exact fill

theorem work_trailerLine (fine : c.e = none) (idle : c.reading = false)
    (lines : c.trailerRead = false) :
    Sat (c.trailerLine web) (fun result => result.1.work < c.work) fun _ => True := by
  unfold Chunked.trailerLine
  cases found : web.hdrLine.parse (c.buf.drop c.nbufread) with
  | more => exact (work_fillBuffer fine idle).bind fun next less => less
  | failed error =>
    simp only [Chunked.work, Outcome.sat_ok, fine, Option.isNone_none, Option.isNone_some,
      Bool.toNat_true, Bool.toNat_false]
    omega
  | done used hdr =>
    obtain ⟨line, tail, front, rfl, positive, -⟩ := web.hdrLine.parse_done found
    have length := congrArg length front
    rw [length_drop, length_append] at length
    dsimp only
    split
    · simp only [Chunked.work, Outcome.sat_ok]
      omega
    split
    · simp only [Chunked.work, Outcome.sat_ok, fine, Option.isNone_none, Option.isNone_some,
        Bool.toNat_true, Bool.toNat_false]
      omega
    · simp only [Chunked.work, Outcome.sat_ok, lines, Bool.not_true, Bool.not_false,
        Bool.toNat_true, Bool.toNat_false]
      omega

theorem work_answer (open' : c.awaited = false) :
    Chunked.work { c with awaited := true, e := finalError c, reads := [] } < c.work := by
  have told : (finalError c).isNone.toNat ≤ c.e.isNone.toNat := by
    unfold finalError
    split
    · exact Nat.zero_le _
    · exact le_rfl
  simp only [Chunked.work, open', Bool.not_true, Bool.not_false, Bool.toNat_true, Bool.toNat_false,
    length_nil]
  omega

/-- A reader that closes is done, or has done something. -/
theorem work_close (c : Chunked) : c.close = (c, []) ∨ c.close.1.work < c.work := by
  refine @close_cases c (fun result => result = (c, []) ∨ result.1.work < c.work)
    (fun _ => .inl rfl) ?_
  rintro open' next (⟨-, rfl⟩ | ⟨cancels, rfl⟩)
  · exact ⟨.inl rfl, .inr (work_answer open')⟩
  · have uncanceled := (Bool.and_eq_true_iff.mp (Bool.and_eq_true_iff.mp cancels).1).2
    have less : Chunked.work { c with
        base := { c.base with canceled := true }, baseCanceled := true } < c.work := by
      rw [Bool.not_eq_true'] at uncanceled
      simp only [Chunked.work, uncanceled, Bool.not_true, Bool.not_false, Bool.toNat_true,
        Bool.toNat_false]
      omega
    exact ⟨.inr less, .inr (Nat.lt_trans (work_answer open') less)⟩

/-- A turn from the beginning does nothing, or leaves less to do. -/
theorem work_advanceState (c : Chunked) (detaches : Bool) :
    Sat (c.advanceState web detaches)
      (fun result => result = (c, []) ∨ result.1.work < c.work) fun _ => True := by
  unfold Chunked.advanceState
  split
  · exact work_close c
  next open' =>
  rw [Bool.not_eq_true] at open'
  obtain ⟨-, fine, unended⟩ := closing_eq_false open'
  split
  · next chunks =>
    rw [Bool.not_eq_true'] at chunks
    by_cases idle : c.reading = true
    · rw [Chunked.advanceChunks, if_pos idle]
      exact .inl rfl
    by_cases waiting : c.reads = []
    · rw [Chunked.advanceChunks, if_neg idle, waiting]
      exact .inl rfl
    rw [Bool.not_eq_true] at idle
    exact (work_advanceChunks fine idle chunks waiting).mono fun _ => .inr
  split
  · next lines =>
    rw [Bool.not_eq_true'] at lines
    unfold Chunked.advanceTrailer
    split
    · exact .inl rfl
    · next idle =>
      rw [Bool.not_eq_true] at idle
      exact (work_trailerLine fine idle lines).mono fun _ => .inr
  · unfold Chunked.respondEof
    split
    · exact .inl rfl
    · refine .inr ?_
      simp only [Chunked.work, unended, Bool.not_true, Bool.not_false, Bool.toNat_true,
        Bool.toNat_false, length_nil]
      omega

/-- After `hdr_cb` the reader does something. -/
theorem Sound.work_inside (sound : s.Sound web) (inside : s.inHdrCb = true) (detaches : Bool) :
    Sat (s.advance web detaches) (fun result => result.1.work < s.c.work) fun _ => True := by
  obtain ⟨idle, -, lines, fine, -⟩ := sound.inside inside
  rw [ChunkedRun.advance, if_pos inside]
  exact work_trailerLine fine idle lines

theorem Sound.work_turn (sound : s.Sound web) (detaches : Bool) :
    Sat (s.advance web detaches)
      (fun result => s.turned result = s ∨ result.1.work < s.c.work) fun _ => True := by
  by_cases inside : s.inHdrCb = true
  · exact (sound.work_inside inside detaches).mono fun _ => .inr
  · rw [ChunkedRun.advance, if_neg inside]
    refine (work_advanceState s.c detaches).mono fun result => .imp_left ?_
    rintro rfl
    rw [turned, append_nil]
    rw [Bool.not_eq_true] at inside
    show { s with inHdrCb := false } = s
    rw [← inside]

/-! ### What is delivered -/

/-- No turn does anything. -/
def Settled (web : Web) (s : ChunkedRun) : Prop :=
  ∀ detaches, s.step web (.turn detaches) = .ok s

/-- What a reader of chunked bodies owes its user: the content of what it has read so far, in order
and each byte and header once; the end, once, for a complete body; an error if the base stream
ends before that, and none as long as what was received is the beginning of a body. As long as the
user has a read to be answered, it goes on until the body is complete. A reader that has failed
cancels its base stream, unless that has ended, and when it has ended the user is told. -/
structure Faithful (web : Web) (s : ChunkedRun) : Prop where
  content : ∃ taken rest phase, s.received = taken ++ rest ∧
    ChunkedReads web .start taken (s.given.flatMap Given.items) phase
  ordered : s.c.Ordered s.given
  complete : s.c.eof = true → ChunkedBody web s.received (s.given.flatMap Given.items)
  incomplete : s.c.base.eof = true → s.c.e ≠ none ∧ s.c.eof = false
  rejects : s.c.e ≠ none → s.c.canceled = false → s.c.base.awaited = false →
    s.c.base.eof = true ∨ ∀ more items, ¬ ChunkedBody web (s.received ++ more) items
  waits : s.c.closing = false → s.c.reads ≠ [] → Settled web s →
    s.c.reading = true ∧ ∀ items, ¬ ChunkedBody web s.received items
  fails : s.c.base.awaited = true → s.c.eof = false → s.c.failing = true
  cancels : s.c.failing = true → Settled web s →
    s.c.awaited = true ∨ s.c.base.awaited = true ∨ s.c.base.canceled = true
  reports : s.c.base.awaited = true → s.c.awaitCb = true → Settled web s → s.c.awaited = true
  settles : ∀ detaches next, s.step web (.turn detaches) = .ok next →
    next = s ∨ next.c.work < s.c.work

theorem step_turn {detaches : Bool} {next : ChunkedRun} (result : s.step web (.turn detaches) = .ok next) :
    ∃ after, s.advance web detaches = .ok after ∧ next = s.turned after := by
  unfold step at result
  dsimp only at result
  cases turn : s.advance web detaches with
  | error fault =>
    rw [turn] at result
    cases result
  | ok after =>
    rw [turn] at result
    exact ⟨after, rfl, (Except.ok.inj result).symm⟩

theorem Settled.not_less (settled : Settled web s) {detaches : Bool}
    (less : Sat (s.advance web detaches) (fun result => result.1.work < s.c.work)
      fun _ => True) : False := by
  obtain ⟨after, turn, same⟩ := step_turn (settled detaches)
  have less := less.of_ok turn
  have kept : s.c = after.1 := congrArg ChunkedRun.c same
  rw [kept] at less
  exact Nat.lt_irrefl _ less

/-- A reader that has nothing to do is not inside of `hdr_cb`. -/
theorem Sound.outside_of_settled (sound : s.Sound web) (settled : Settled web s) :
    s.inHdrCb = false :=
  Bool.eq_false_iff.mpr fun inside => settled.not_less (sound.work_inside inside false)

/-- A reader that has a read to answer and no read of its own does something in its turn. -/
theorem work_lt (open' : c.closing = false) (idle : c.reading = false) (waiting : c.reads ≠ [])
    (detaches : Bool) :
    Sat (c.advanceState web detaches) (fun result => result.1.work < c.work) fun _ => True := by
  obtain ⟨-, fine, unended⟩ := closing_eq_false open'
  unfold Chunked.advanceState
  rw [if_neg (by rw [open']; nofun)]
  split
  · next chunks =>
    rw [Bool.not_eq_true'] at chunks
    exact work_advanceChunks fine idle chunks waiting
  split
  · next lines =>
    rw [Bool.not_eq_true'] at lines
    unfold Chunked.advanceTrailer
    rw [if_neg (by rw [idle]; nofun)]
    exact work_trailerLine fine idle lines
  · unfold Chunked.respondEof
    rw [if_neg waiting]
    simp only [Chunked.work, Outcome.sat_ok, unended, Bool.not_true, Bool.not_false, Bool.toNat_true,
      Bool.toNat_false, length_nil]
    omega

theorem Sound.reading_of_settled (sound : s.Sound web) (open' : s.c.closing = false)
    (waiting : s.c.reads ≠ []) (settled : Settled web s) : s.c.reading = true := by
  refine Bool.not_eq_false _ ▸ fun idle => @Settled.not_less _ s settled false ?_
  rw [ChunkedRun.advance, sound.outside_of_settled settled, if_neg nofun]
  exact work_lt open' idle waiting false

theorem Sound.close_of_settled (sound : s.Sound web) (closing : s.c.closing = true)
    (settled : Settled web s) : s.c.close = (s.c, []) := by
  obtain ⟨after, turn, same⟩ := step_turn (settled false)
  rw [ChunkedRun.advance, sound.outside_of_settled settled, if_neg nofun, Chunked.advanceState,
    if_pos closing] at turn
  have given : s.given = s.given ++ after.2 := congrArg ChunkedRun.given same
  rw [Except.ok.inj turn]
  exact Prod.ext (congrArg ChunkedRun.c same).symm (self_eq_append_right.mp given)

theorem close_cancels (untold : c.awaited = false) (open' : c.base.awaited = false)
    (failing : c.failing = true) : c.close.1.base.canceled = true := by
  refine @close_cases c (fun result => result.1.base.canceled = true)
    (fun told => absurd (untold.symm.trans told) nofun) ?_
  rintro - next (⟨kept, rfl⟩ | ⟨-, rfl⟩)
  · rw [open', failing, Bool.and_true, Bool.not_false, Bool.true_and, Bool.not_eq_true,
      Bool.not_eq_false'] at kept
    exact ⟨kept, kept⟩
  · exact ⟨rfl, rfl⟩

theorem close_tells (untold : c.awaited = false) (awaited : c.base.awaited = true)
    (idle : c.reading = false) (asked : c.awaitCb = true) :
    c.close.2 = [.awaited (finalError c)] := by
  have kept : ¬ (!c.base.awaited && !c.base.canceled && c.failing) = true := by
    rw [awaited, Bool.not_true, Bool.false_and, Bool.false_and]
    rintro ⟨⟩
  rw [Chunked.close, if_neg (by rw [untold]; rintro ⟨⟩), if_neg kept]
  dsimp only
  rw [if_neg (by rw [idle]; rintro ⟨⟩), if_neg (by rw [awaited]; rintro ⟨⟩),
    if_neg (by rw [asked]; rintro ⟨⟩)]
  rfl

theorem Sound.faithful (sound : s.Sound web) : Faithful web s := by
  obtain ⟨taken, phase, received, reads, there⟩ := sound.follows
  exact
    { content := ⟨taken, s.c.rest, phase, received, reads⟩
      ordered := sound.ordered
      complete := fun ended => (sound.ended ended).2.2
      incomplete := fun eof => ⟨(sound.broken eof).1, (sound.broken eof).2.2⟩
      rejects := sound.rejects
      waits := fun open' waiting settled => by
        have reading := sound.reading_of_settled open' waiting settled
        refine ⟨reading, fun items body => ?_⟩
        obtain ⟨-, -, lacks⟩ := sound.inflight reading
        rw [received] at body
        obtain ⟨left, -, rest⟩ := ChunkedReads.residual reads body
        rw [there (.inl open'), ← append_nil s.c.rest] at rest
        exact (lacks [] left rest).1 rfl
      fails := fun awaited unended => by
        have closing := (sound.awaited awaited).1
        rw [Chunked.closing, unended, Bool.or_false] at closing
        exact closing
      cancels := fun failing settled => by
        by_cases told : s.c.awaited = true
        · exact .inl told
        by_cases ended : s.c.base.awaited = true
        · exact .inr (.inl ended)
        rw [Bool.not_eq_true] at told ended
        have closing : s.c.closing = true := by rw [Chunked.closing, failing, Bool.true_or]
        have canceled := close_cancels told ended failing
        rw [sound.close_of_settled closing settled] at canceled
        exact .inr (.inr canceled)
      reports := fun awaited asked settled => by
        refine Bool.not_eq_false _ ▸ fun untold => ?_
        obtain ⟨closing, idle⟩ := sound.awaited awaited
        have tells := close_tells untold awaited idle asked
        rw [sound.close_of_settled closing settled] at tells
        cases tells
      settles := fun detaches next result => by
        obtain ⟨after, turn, rfl⟩ := step_turn result
        exact (sound.work_turn detaches).of_ok turn }

/-- In every run whose steps are all harmless the reader delivers its body, and none of its
assertions fails. -/
theorem faithful_of_harmless (web : Web) (events : List ChunkedEvent)
    (harmless : Guarded (step web) (Harmless web) start events) :
    Sat (run (step web) start events) (Faithful web) (· = .contract) := by
  have sound := harmless.sat step_sound start_sound
  cases result : run (step web) start events with
  | ok last => exact (sound.of_ok result).faithful
  | error fault => exact sound.of_error result

end ChunkedRun

/-! ### A grammar of plain lines -/

/-- A parser of lines that end where the first newline is. -/
def lineParse {Value : Type} (value : Bytes → Option Value) (text : Bytes) : Parsed Value :=
  let front := text.takeWhile (· ≠ 10)
  if front.length = text.length then .more
  else
    match value front with
    | some found => .done (front.length + 1) found
    | none => .failed ⟨.response, "invalid http response"⟩

theorem takeWhile_plain {text : Bytes} (plain : 10 ∉ text) : text.takeWhile (· ≠ 10) = text :=
  takeWhile_eq_self_iff.mpr fun _ mem =>
    decide_eq_true fun newline => plain (newline ▸ mem)

theorem takeWhile_line {front rest : Bytes} (plain : 10 ∉ front) :
    (front ++ [10] ++ rest).takeWhile (· ≠ 10) = front := by
  rw [append_assoc, takeWhile_append_of_pos]
  · exact append_nil front
  · exact fun char mem => decide_eq_true fun newline => plain (newline ▸ mem)

theorem notMem_takeWhile (text : Bytes) : 10 ∉ text.takeWhile (· ≠ 10) := fun mem => by
  have other := mem_takeWhile_imp mem
  exact absurd rfl (of_decide_eq_true other)

theorem takeWhile_split {text : Bytes} (longer : (text.takeWhile (· ≠ 10)).length ≠ text.length) :
    ∃ rest, text = text.takeWhile (· ≠ 10) ++ [10] ++ rest := by
  induction text with
  | nil => exact absurd rfl longer
  | cons char tail ih =>
    by_cases newline : char = 10
    · subst newline
      exact ⟨tail, rfl⟩
    · have goesOn : (char :: tail).takeWhile (· ≠ 10) = char :: tail.takeWhile (· ≠ 10) := by
        rw [takeWhile_cons, if_pos (decide_eq_true newline)]
      rw [goesOn] at longer ⊢
      obtain ⟨rest, same⟩ := ih fun equal => longer (congrArg Nat.succ equal)
      exact ⟨rest, congrArg (char :: ·) same⟩

/-- Lines up to a newline, of which each means what `value` says. -/
def plainLines {Value : Type} (value : Bytes → Option Value) : LineParser Value where
  parse := lineParse value
  Line line found := ∃ front, line = front ++ [10] ∧ 10 ∉ front ∧ value front = some found
  nonempty := by
    rintro line found ⟨front, rfl, -, -⟩
    exact append_ne_nil_of_right_ne_nil _ nofun
  done_of_line := by
    rintro line found rest ⟨front, rfl, plain, same⟩
    rw [lineParse, takeWhile_line plain, if_neg, same]
    · rw [length_append]
      rfl
    · rw [length_append, length_append, length_singleton]
      omega
  more_of_short := by
    rintro text rest found ⟨front, whole, plain, -⟩ some
    have inside : text ++ rest.dropLast = front := by
      rw [← dropLast_append_of_ne_nil some, whole, dropLast_concat]
    have plain : 10 ∉ text := fun mem => plain (inside ▸ mem_append_left _ mem)
    rw [lineParse, takeWhile_plain plain, if_pos rfl]
  line_of_done := by
    intro text used found done
    unfold lineParse at done
    dsimp only at done
    split at done
    · exact absurd done nofun
    · next longer =>
      split at done
      · next same =>
        cases done
        obtain ⟨rest, whole⟩ := takeWhile_split longer
        have length : (text.takeWhile (· ≠ 10) ++ [10]).length = (text.takeWhile (· ≠ 10)).length + 1 :=
          length_append
        refine ⟨?_, _, ?_, notMem_takeWhile text, same⟩
        · have total := congrArg List.length whole
          rw [length_append, length] at total
          omega
        · rw [← length]
          exact (prefix_iff_eq_take.mp ⟨rest, whole.symm⟩).symm
      · exact absurd done nofun

/-- The size in a line, which ends with a carriage return. -/
def plainSize (front : Bytes) : Option Nat :=
  if front.getLast? = some 13 ∧ front.dropLast ≠ [] ∧ 10 ∉ front then
    (hexNumber front.dropLast).filter (· ≤ sizeMax)
  else none

/-- The header in a line, with what is before and after its first colon. -/
def plainHdr (front : Bytes) : Option HttpHdr :=
  if front.getLast? ≠ some 13 then none
  else if front.dropLast = [] then some ⟨[], []⟩
  else
    let key := front.dropLast.takeWhile (· ≠ 58)
    if key = [] then none else some ⟨key, front.dropLast.drop (key.length + 1)⟩

theorem notMem_of_hexNumber {digits : Bytes} {size : Nat} (number : hexNumber digits = some size)
    {char : UInt8} (other : hexValue char = none) : char ∉ digits := by
  have lost : ∀ rest : Bytes, rest.foldl (fun total char =>
      total.bind fun high => (hexValue char).map (16 * high + ·)) (none : Option Nat) = none := by
    intro rest
    induction rest with
    | nil => rfl
    | cons head tail ih => exact ih
  intro mem
  obtain ⟨front, back, rfl⟩ := append_of_mem mem
  rw [hexNumber, foldl_append, foldl_cons, other] at number
  have none : ((foldl (fun total char =>
      total.bind fun high => (hexValue char).map (16 * high + ·)) (some 0) front).bind
        fun high => (Option.none : Option Nat).map (16 * high + ·)) = Option.none := by
    cases foldl (fun total char =>
      total.bind fun high => (hexValue char).map (16 * high + ·)) (some 0) front <;> rfl
  rw [none, lost] at number
  exact absurd number nofun

/-- Lines without extensions, and headers without blanks. -/
def plainWeb : Web where
  chunk := plainLines plainSize
  hdrLine := plainLines plainHdr
  Extensions := (· = [])
  chunk_line := by
    intro line size
    constructor
    · rintro ⟨front, rfl, plain, found⟩
      unfold plainSize at found
      split at found
      · next shape =>
        obtain ⟨ends, some, -⟩ := shape
        obtain ⟨number, bound⟩ := Option.filter_eq_some_iff.mp found
        refine ⟨front.dropLast, [], ?_, some, number, of_decide_eq_true bound, rfl⟩
        obtain ⟨before, rfl⟩ := getLast?_eq_some_iff.mp ends
        rw [dropLast_concat, append_nil, append_assoc]
        rfl
      · exact absurd found nofun
    · rintro ⟨digits, extensions, rfl, some, number, bound, rfl⟩
      have plain : 10 ∉ digits ++ [13] := by
        rw [mem_append, not_or]
        exact ⟨notMem_of_hexNumber number rfl, by decide⟩
      refine ⟨digits ++ [13], by rw [append_nil, append_assoc]; rfl, plain, ?_⟩
      unfold plainSize
      rw [dropLast_concat, getLast?_concat, if_pos ⟨rfl, some, plain⟩, number]
      exact Option.filter_eq_some_iff.mpr ⟨rfl, decide_eq_true bound⟩

/-! ### A body, and what goes wrong -/

namespace ChunkedRun

/-- A body with one chunk and one header, in two reads. -/
def shortBody : List ChunkedEvent :=
  [.await, .read 100, .turn true, .baseRead (ascii "1\x0d\nx\x0d\n0"), .turn true, .turn true, .read 100,
    .turn true, .baseRead (ascii "\x0d\na:b\x0d\n\x0d\n"), .turn true, .turn true, .turn true, .turn true,
    .turn true]

instance : DecidablePred Unwrapped := fun _ => by unfold Unwrapped; infer_instance

instance (web : Web) : DecidablePred (Abandoned web) := fun _ => by unfold Abandoned; infer_instance

instance (web : Web) (s : ChunkedRun) : (event : ChunkedEvent) → Decidable (s.Harmless web event)
  | .read _ | .cancel | .await | .baseRead _ => isTrue trivial
  | .turn _ => inferInstanceAs (Decidable (Unwrapped s.c ∧ ¬ Abandoned web s))
  | .baseAwait _ => inferInstanceAs (Decidable (s.c.reading = false))

theorem faithful_of_harmless_shortBody :
    Sat (run (step plainWeb) start shortBody)
        (fun s => s.given = [.data [120], .header ⟨[97], [98]⟩, .eof 1, .awaited none]) (fun _ => False) ∧
      Sat (run (step plainWeb) start shortBody) (Faithful plainWeb) (· = .contract) :=
  ⟨by decide +kernel, faithful_of_harmless plainWeb shortBody (by decide +kernel)⟩

/-- The line of a chunk of the largest size. -/
def largestLine : Bytes := ascii "ffffffffffffffff\x0d\n"

/-- The data of the chunk looks like the end of a body. -/
def wrapping : List ChunkedEvent :=
  [.await, .read 100, .turn true, .baseRead (largestLine ++ ascii "\x0d\n0\x0d\n\x0d\n"), .turn true,
    .turn true, .turn true, .turn true]

/-- The base stream fails while a read of the reader is with it. -/
def stranded : List ChunkedEvent :=
  [.await, .read 100, .turn true, .baseAwait (some (.other 1)), .turn true]

/-- The user cancels in `hdr_cb`, and the line after the header has not been received. -/
def abandoned : List ChunkedEvent :=
  [.await, .read 100, .turn true, .baseRead (ascii "0\x0d\na:b\x0d\n"), .turn true, .turn true, .cancel,
    .turn true]

theorem largestLine_reads : ChunkedReads plainWeb .start largestLine [] (.data sizeMax) := by
  have is : plainWeb.chunk.Line largestLine sizeMax :=
    ⟨ascii "ffffffffffffffff\x0d", rfl, by decide, by decide +kernel⟩
  exact Spelled.single (.line .start is (by decide))

/-- The end of a body is told within its first chunk, the failure of the base stream is not told,
and the program stops after a cancellation. -/
theorem faithful_fails :
    ¬ Sat (run (step plainWeb) start wrapping) (Faithful plainWeb) (· = .contract) ∧
      ¬ Sat (run (step plainWeb) start stranded) (Faithful plainWeb) (· = .contract) ∧
      ¬ Sat (run (step plainWeb) start abandoned) (Faithful plainWeb) (· = .contract) := by
  refine ⟨?_, ?_, ?_⟩
  · intro promised
    have told : Sat (run (step plainWeb) start wrapping)
        (fun s => s.c.eof = true ∧ s.received = largestLine ++ ascii "\x0d\n0\x0d\n\x0d\n") fun _ => False := by
      decide +kernel
    cases result : run (step plainWeb) start wrapping with
    | error fault => exact told.of_error result
    | ok s =>
      obtain ⟨ended, received⟩ := told.of_ok result
      have body := (promised.of_ok result).complete ended
      rw [received] at body
      obtain ⟨left, -, rest⟩ := ChunkedReads.residual largestLine_reads body
      exact absurd (ChunkedReads.longer rest) (by decide +kernel)
  · intro promised
    have told : Sat (run (step plainWeb) start stranded)
        (fun s => (s.c.base.awaited = true ∧ s.c.awaitCb = true ∧ s.c.awaited = false) ∧
          Sat (s.step plainWeb (.turn true)) (· = s) (fun _ => False) ∧
          Sat (s.step plainWeb (.turn false)) (· = s) fun _ => False) fun _ => False := by
      decide +kernel
    cases result : run (step plainWeb) start stranded with
    | error fault => exact told.of_error result
    | ok s =>
      obtain ⟨⟨awaited, asked, untold⟩, one, other⟩ := told.of_ok result
      have still : ∀ detaches, Sat (s.step plainWeb (.turn detaches)) (· = s) fun _ => False :=
        fun | true => one | false => other
      have settled : Settled plainWeb s := fun detaches => by
        have same := still detaches
        cases turn : s.step plainWeb (.turn detaches) with
        | error fault => exact (same.of_error turn).elim
        | ok next => rw [same.of_ok turn]
      have heard := (promised.of_ok result).reports awaited asked settled
      exact absurd (untold.symm.trans heard) nofun
  · intro promised
    have stops : Sat (run (step plainWeb) start abandoned) (fun _ => False) (· = .mustRead) := by
      decide +kernel
    cases result : run (step plainWeb) start abandoned with
    | ok s => exact stops.of_ok result
    | error fault => cases (promised.of_error result).symm.trans (stops.of_error result)

end ChunkedRun

end Splintermail
