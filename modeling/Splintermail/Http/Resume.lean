/-
This file proves when a request is written the same way whatever the buffers are.

A call writes a beginning of what is left to write, because each stage is written again as
it was and skips what has been passed to the buffers. There is one exception. The first
parameter has no separator before it if the URL has none, but the marshaler remembers
that the next parameter needs one before it knows that the first one fits. When it is
written again, it is written with a separator.
-/

import Splintermail.Http.Marshal
import Splintermail.Lib.Resumable

namespace Splintermail

open List

/-! ### Writing a text -/

/-- The buffer has taken what there is room for of the text, after the bytes to skip. -/
structure Wrote (text : Bytes) (start sf : SkipFill) : Prop where
  size : sf.size = start.size
  out : sf.out = start.out ++ (text.drop start.skip).take (start.size - start.out.length)
  skip : sf.skip = start.skip - text.length
  passed : sf.passed = min text.length (start.skip + (start.size - start.out.length))
  want : sf.want = 0 ↔ text.length ≤ start.skip + (start.size - start.out.length)

/-- A function writes a text, after whatever was written before. -/
structure Emits (fill : SkipFill → SkipFill) (text : Bytes) : Prop where
  wrote : ∀ {before : Bytes} {start sf : SkipFill}, Wrote before start sf →
    Wrote (before ++ text) start (fill sf)

theorem Wrote.start (content : Bytes) (size skip : Nat) :
    Wrote [] ⟨content, size, skip, 0, 0⟩ ⟨content, size, skip, 0, 0⟩ := by
  constructor <;> simp

theorem Wrote.length_out {text : Bytes} {start sf : SkipFill} (wrote : Wrote text start sf) :
    sf.out.length =
      start.out.length + min (start.size - start.out.length) (text.length - start.skip) := by
  rw [wrote.out, length_append, length_take, length_drop]

theorem emits_dstrSkipFill (input : Bytes) : Emits (dstrSkipFill · input) input := by
  refine ⟨fun {before start sf} wrote => ?_⟩
  have length := wrote.length_out
  have space : sf.size - sf.out.length =
      start.size - start.out.length - (before.length - start.skip) := by
    rw [length, wrote.size]
    omega
  have skipped : input.drop (min sf.skip input.length) = input.drop (start.skip - before.length) := by
    rw [wrote.skip]
    rcases Nat.le_total (start.skip - before.length) input.length with short | long
    · rw [Nat.min_eq_left short]
    · rw [Nat.min_eq_right long, drop_length, drop_eq_nil_of_le long]
  have want := wrote.want
  have passed := wrote.passed
  constructor
  · exact wrote.size
  · show sf.out ++ (input.drop (min sf.skip input.length)).take (sf.size - sf.out.length) = _
    rw [skipped, space, wrote.out, drop_append, take_append, length_drop, append_assoc]
  · show sf.skip - min sf.skip input.length = _
    rw [wrote.skip, length_append]
    omega
  · show sf.passed + min sf.skip input.length +
      ((input.drop (min sf.skip input.length)).take (sf.size - sf.out.length)).length = _
    rw [length_take, length_drop, space, passed, wrote.skip, length_append]
    omega
  · show (if min sf.skip input.length + (sf.size - sf.out.length) < input.length then _ else _) = 0 ↔ _
    rw [space, wrote.skip, length_append]
    split
    · split <;> omega
    · split <;> omega

/-- A character is written as a string of one character is, but for what is counted in `want`. -/
theorem charSkipFill_eq {before : Bytes} {start sf : SkipFill} (wrote : Wrote before start sf)
    (char : UInt8) : ∃ want, charSkipFill sf char = { dstrSkipFill sf [char] with want } ∧
      (want = 0 ↔ (dstrSkipFill sf [char]).want = 0) := by
  have length := wrote.length_out
  have want := wrote.want
  have skip := wrote.skip
  have size := wrote.size
  unfold charSkipFill
  split
  · next wants =>
    have full : sf.size - sf.out.length = 0 := by omega
    have none : sf.skip = 0 := by omega
    refine ⟨sf.want + 1, ?_, ?_⟩
    · simp [dstrSkipFill, full, none]
    · simp [dstrSkipFill, wants, full, none]
  · next content =>
    have zero : sf.want = 0 := by omega
    split
    · next skips =>
      have one : min sf.skip 1 = 1 := by omega
      have room : ¬ 1 + (sf.size - sf.out.length) < 1 := by omega
      exact ⟨0, by simp [dstrSkipFill, zero, one], by simp [dstrSkipFill, zero, one, room]⟩
    · next reads =>
      rw [not_not] at reads
      split
      · next room =>
        obtain ⟨more, spare⟩ : ∃ more, sf.size - sf.out.length = more + 1 :=
          ⟨sf.size - sf.out.length - 1, by omega⟩
        exact ⟨0, by simp [dstrSkipFill, reads, zero, spare], by simp [dstrSkipFill, reads, zero, spare]⟩
      · next full =>
        have none : sf.size - sf.out.length = 0 := by omega
        exact ⟨sf.want + 1, by simp [dstrSkipFill, reads, none], by simp [dstrSkipFill, reads, none, zero]⟩

theorem emits_charSkipFill (char : UInt8) : Emits (charSkipFill · char) [char] := by
  refine ⟨fun {before start sf} wrote => ?_⟩
  obtain ⟨want, same, zero⟩ := charSkipFill_eq wrote char
  have after := (emits_dstrSkipFill [char]).wrote wrote
  rw [same]
  exact ⟨after.size, after.out, after.skip, after.passed, zero.trans after.want⟩

theorem Emits.comp {first second : SkipFill → SkipFill} {front back : Bytes}
    (one : Emits first front) (two : Emits second back) :
    Emits (fun sf => second (first sf)) (front ++ back) := by
  refine ⟨fun {before start sf} wrote => ?_⟩
  rw [← append_assoc]
  exact two.wrote (one.wrote wrote)

theorem Emits.none : Emits (fun sf => sf) [] :=
  ⟨fun {before start sf} wrote => by rwa [append_nil]⟩

/-! ### The texts of the stages -/

/-- What is written for a character. -/
def urlEncodedChar (char : UInt8) : Bytes :=
  if urlAllowed char then [char]
  else if char = 32 then [43]
  else [37, hexNibble (char >>> 4 &&& 0xf), hexNibble (char &&& 0xf)]

def urlEncoded (text : Bytes) : Bytes := text.flatMap urlEncodedChar

theorem emits_urlEncodeChar (char : UInt8) :
    Emits (urlEncodeChar · char) (urlEncodedChar char) := by
  unfold urlEncodeChar urlEncodedChar
  split
  · exact emits_charSkipFill _
  split
  · exact emits_charSkipFill _
  · exact ((emits_charSkipFill _).comp (emits_charSkipFill _)).comp (emits_charSkipFill _)

theorem emits_urlEncodeSkipFill (text : Bytes) :
    Emits (urlEncodeSkipFill · text) (urlEncoded text) := by
  induction text with
  | nil => exact .none
  | cons char rest ih =>
    exact (emits_urlEncodeChar char).comp ih

/-- The path of a request. -/
def pathText (url : Url) : Bytes :=
  if (dstrFromOff url.path).length = 0 then ascii "/" else dstrFromOff url.path

theorem emits_pathSkipFill (url : Url) : Emits (pathSkipFill · url) (pathText url) := by
  unfold pathSkipFill pathText
  dsimp only
  split
  · exact emits_dstrSkipFill _
  · exact emits_dstrSkipFill _

/-- The parameters in the URL. -/
def urlParamsText (url : Url) (moreParams : Bool) : Bytes :=
  if (dstrFromOff url.query).length = 0 ∧ !moreParams then []
  else ascii "?" ++ dstrFromOff url.query

/-- The parameters in the URL need a separator after them. -/
def urlNeedsAmp (url : Url) : Bool :=
  (dstrFromOff url.query).length ≠ 0 && (dstrFromOff url.query).getLast? ≠ some 38

theorem emits_paramsSkipFill (url : Url) (moreParams needAmp : Bool) :
    Emits (fun sf => (paramsSkipFill sf url moreParams needAmp).1) (urlParamsText url moreParams) := by
  unfold paramsSkipFill urlParamsText
  dsimp only
  split
  · exact .none
  · exact (emits_dstrSkipFill _).comp (emits_dstrSkipFill _)

/-- The request line before the parameters. -/
def methodUrlText (method : HttpMethod) (url : Url) (moreParams : Bool) : Bytes :=
  httpMethodToDstr method ++ ascii " " ++ pathText url ++ urlParamsText url moreParams

theorem emits_requestMethodUrl (method : HttpMethod) (url : Url) (moreParams needAmp : Bool) :
    Emits (fun sf => (requestMethodUrlSkipFill sf method url moreParams needAmp).1)
      (methodUrlText method url moreParams) :=
  (((emits_dstrSkipFill _).comp (emits_dstrSkipFill _)).comp (emits_pathSkipFill url)).comp
    (emits_paramsSkipFill url moreParams needAmp)

/-- A parameter. -/
def paramText (needAmp : Bool) (pair : HttpPair) : Bytes :=
  (if needAmp then ascii "&" else []) ++ urlEncoded pair.key ++ ascii "=" ++ urlEncoded pair.value

theorem emits_paramSkipFill (needAmp : Bool) (pair : HttpPair) :
    Emits (paramSkipFill · needAmp pair) (paramText needAmp pair) := by
  have amp : Emits (fun sf => if needAmp then dstrSkipFill sf (ascii "&") else sf)
      (if needAmp then ascii "&" else []) := by
    cases needAmp with
    | true => exact emits_dstrSkipFill _
    | false => exact .none
  exact ((amp.comp (emits_urlEncodeSkipFill _)).comp (emits_dstrSkipFill _)).comp
    (emits_urlEncodeSkipFill _)

/-- The request line after the parameters. -/
def fragmentVersionText (url : Url) : Bytes :=
  (if (dstrFromOff url.fragment).length ≠ 0 then ascii "#" ++ dstrFromOff url.fragment else []) ++
    ascii " HTTP/1.1\r\n"

theorem emits_requestFragmentVersion (url : Url) :
    Emits (requestFragmentVersionSkipFill · url) (fragmentVersionText url) := by
  have fragment : Emits (fragmentSkipFill · url)
      (if (dstrFromOff url.fragment).length ≠ 0 then ascii "#" ++ dstrFromOff url.fragment else []) := by
    unfold fragmentSkipFill
    dsimp only
    split
    · exact (emits_dstrSkipFill _).comp (emits_dstrSkipFill _)
    · exact .none
  exact fragment.comp (emits_dstrSkipFill _)

/-- The line of a header. -/
def hdrText (pair : HttpPair) : Bytes := pair.key ++ ascii ": " ++ pair.value ++ ascii "\r\n"

theorem emits_hdrLineSkipFill (pair : HttpPair) : Emits (hdrLineSkipFill · pair) (hdrText pair) :=
  (((emits_dstrSkipFill _).comp (emits_dstrSkipFill _)).comp (emits_dstrSkipFill _)).comp
    (emits_dstrSkipFill _)

/-! ### What is left to write -/

/-- The parameters, of which only the first may be without a separator. -/
def paramTexts : Bool → List HttpPair → List Bytes
  | _, [] => []
  | needAmp, pair :: rest => paramText needAmp pair :: paramTexts true rest

namespace HttpMarshaler

/-- Whether the next parameter has a separator before it. -/
def ampNext (m : HttpMarshaler) : Bool :=
  if m.requestMethodUrl then m.needAmp else urlNeedsAmp m.url

/-- The stages after the parameters. -/
def tailStages (m : HttpMarshaler) : List Bytes :=
  (if m.requestFragmentVersion then [] else [fragmentVersionText m.url]) ++
    ((if m.host then [] else [hdrText (hostPair m.url)]) ++
      ((if m.contentLength then [] else [hdrText (contentLengthPair m.bodyLen)]) ++
        (m.hdrptr.map hdrText ++ if m.eoh then [] else [ascii "\r\n"])))

/-- The texts of the stages that are not done. -/
def stages (m : HttpMarshaler) : List Bytes :=
  (if m.requestMethodUrl then [] else [methodUrlText m.method m.url (m.params ≠ [])]) ++
    (paramTexts m.ampNext m.paramptr ++ m.tailStages)

/-- What is left to write. -/
def remaining (m : HttpMarshaler) : Bytes := m.stages.flatten.drop m.skip

/-- Every stage writes something. -/
theorem stages_ne_nil (m : HttpMarshaler) : ∀ text ∈ m.stages, text ≠ [] := by
  have params : ∀ needAmp pairs, ∀ text ∈ paramTexts needAmp pairs, text ≠ [] := by
    intro needAmp pairs
    induction pairs generalizing needAmp with
    | nil => exact nofun
    | cons pair rest ih =>
      intro text mem
      rcases mem_cons.mp mem with rfl | later
      · simp [paramText, ascii]
      · exact ih true text later
  intro text mem
  unfold stages tailStages at mem
  simp only [mem_append, mem_map] at mem
  rcases mem with method | param | version | host | length | ⟨pair, -, rfl⟩ | last
  · split at method
    · exact absurd method not_mem_nil
    · rw [mem_singleton.mp method]
      simp [methodUrlText, ascii]
  · exact params _ _ text param
  · split at version
    · exact absurd version not_mem_nil
    · rw [mem_singleton.mp version]
      simp [fragmentVersionText, ascii]
  · split at host
    · exact absurd host not_mem_nil
    · rw [mem_singleton.mp host]
      simp [hdrText, ascii]
  · split at length
    · exact absurd length not_mem_nil
    · rw [mem_singleton.mp length]
      simp [hdrText, ascii]
  · simp [hdrText, ascii]
  · split at last
    · exact absurd last not_mem_nil
    · rw [mem_singleton.mp last]
      simp [ascii]

/-- A part of the next stage is skipped, and the parameters are not begun before the request line. -/
structure Good (m : HttpMarshaler) : Prop where
  within : ∀ text rest, m.stages = text :: rest → m.skip < text.length
  params : m.requestMethodUrl = false → m.paramptr = m.params

end HttpMarshaler

/-! ### One stage -/

/-- The room in a buffer. -/
def OutBuf.room (buf : OutBuf) : Nat := buf.size - buf.content.length

variable {state : Marshaling}

/-- A stage for which there is room. -/
theorem endStage_ok {fill : SkipFill → SkipFill} {text : Bytes} (emits : Emits fill text)
    (m done : HttpMarshaler) (fits : text.length ≤ state.1.skip + state.2.room) :
    endStage (fill state.fill) m done =
      .ok ({ done with skip := 0 }, ⟨state.2.content ++ text.drop state.1.skip, state.2.size⟩) := by
  have wrote := emits.wrote (Wrote.start state.2.content state.2.size state.1.skip)
  rw [nil_append] at wrote
  have zero : (fill state.fill).want = 0 := wrote.want.mpr fits
  have whole : (text.drop state.1.skip).take state.2.room = text.drop state.1.skip := by
    refine take_of_length_le ?_
    rw [length_drop]
    omega
  have out : (fill state.fill).out = state.2.content ++ text.drop state.1.skip :=
    wrote.out.trans (congrArg (state.2.content ++ ·) whole)
  have size : (fill state.fill).size = state.2.size := wrote.size
  unfold endStage
  dsimp only
  rw [if_neg (not_not.mpr zero), out, size]

/-- A stage for which there is not enough room. -/
theorem endStage_error {fill : SkipFill → SkipFill} {text : Bytes} (emits : Emits fill text)
    (m done : HttpMarshaler) (long : state.1.skip + state.2.room < text.length) :
    endStage (fill state.fill) m done =
      .error ({ m with skip := state.1.skip + state.2.room },
        ⟨state.2.content ++ (text.drop state.1.skip).take state.2.room, state.2.size⟩) := by
  have wrote := emits.wrote (Wrote.start state.2.content state.2.size state.1.skip)
  rw [nil_append] at wrote
  have some : (fill state.fill).want ≠ 0 := fun zero =>
    absurd (wrote.want.mp zero) (Nat.not_le_of_lt long)
  have passed : (fill state.fill).passed = state.1.skip + state.2.room :=
    wrote.passed.trans (Nat.min_eq_right (Nat.le_of_lt long))
  have out : (fill state.fill).out = state.2.content ++ (text.drop state.1.skip).take state.2.room :=
    wrote.out
  have size : (fill state.fill).size = state.2.size := wrote.size
  unfold endStage
  dsimp only
  rw [if_pos some, passed, out, size]

/-! ### What a part of a call does -/

/-- A part of a call has written a beginning of what is left. Where the call returns, the buffer is full
and something is left. -/
def Moves (state : Marshaling) (result : Except Marshaling Marshaling)
    (stop post : HttpMarshaler → Prop) : Prop :=
  match result with
  | .ok after => after.1.Good ∧ post after.1 ∧ after.2.size = state.2.size ∧
      ∃ out, after.2.content = state.2.content ++ out ∧ out.length ≤ state.2.room ∧
        state.1.remaining = out ++ after.1.remaining
  | .error after => after.1.Good ∧ stop after.1 ∧ after.1.remaining ≠ [] ∧
      after.2.size = state.2.size ∧
      ∃ out, after.2.content = state.2.content ++ out ∧ out.length = state.2.room ∧
        state.1.remaining = out ++ after.1.remaining

variable {out : Bytes}

theorem OutBuf.room_append {buf after : OutBuf} (size : after.size = buf.size)
    (content : after.content = buf.content ++ out) : after.room = buf.room - out.length := by
  unfold OutBuf.room
  rw [size, content, length_append]
  omega

variable {result : Except Marshaling Marshaling}

theorem Moves.andThen {after : Marshaling} {stop middle post : HttpMarshaler → Prop}
    (first : Moves state (.ok after) stop middle) (later : Moves after result stop post) :
    Moves state result stop post := by
  obtain ⟨-, -, size, out, content, short, split⟩ := first
  have room := OutBuf.room_append size content
  cases result with
  | error final =>
    obtain ⟨good, stops, left, sameSize, more, added, full, rest⟩ := later
    refine ⟨good, stops, left, sameSize.trans size, out ++ more, ?_, ?_, ?_⟩
    · rw [added, content, append_assoc]
    · rw [length_append, full, room]
      omega
    · rw [split, rest, append_assoc]
  | ok final =>
    obtain ⟨good, done, sameSize, more, added, fits, rest⟩ := later
    refine ⟨good, done, sameSize.trans size, out ++ more, ?_, ?_, ?_⟩
    · rw [added, content, append_assoc]
    · rw [length_append]
      omega
    · rw [split, rest, append_assoc]

/-- A part after a part. -/
theorem Moves.bind {stop middle post : HttpMarshaler → Prop}
    {next : Marshaling → Except Marshaling Marshaling} (first : Moves state result stop middle)
    (second : ∀ after : Marshaling, after.1.Good → middle after.1 →
      Moves after (next after) stop post) : Moves state (result >>= next) stop post := by
  cases result with
  | error after => exact first
  | ok after => exact first.andThen (second after first.1 first.2.1)

theorem Moves.skip {stop post : HttpMarshaler → Prop} (good : state.1.Good) (done : post state.1) :
    Moves state (.ok state) stop post :=
  ⟨good, done, rfl, [], (append_nil _).symm, Nat.zero_le _, rfl⟩

/-- A stage writes its text. -/
theorem moves_endStage {fill : SkipFill → SkipFill} {text : Bytes} {rest : List Bytes}
    {m done : HttpMarshaler} {stop post : HttpMarshaler → Prop} (emits : Emits fill text)
    (good : state.1.Good) (now : state.1.stages = text :: rest)
    (same : state.1.skip + state.2.room < text.length →
      m.stages = text :: rest ∧ (m.requestMethodUrl = false → m.paramptr = m.params) ∧
        stop { m with skip := state.1.skip + state.2.room }) (next : done.stages = rest)
    (params : done.requestMethodUrl = false → done.paramptr = done.params)
    (after : post { done with skip := 0 }) :
    Moves state (endStage (fill state.fill) m done) stop post := by
  have within := good.within text rest now
  have left : state.1.remaining = text.drop state.1.skip ++ rest.flatten := by
    unfold HttpMarshaler.remaining
    rw [now, flatten_cons, drop_append_of_le_length (Nat.le_of_lt within)]
  by_cases fits : text.length ≤ state.1.skip + state.2.room
  · rw [endStage_ok emits m done fits]
    have finished : ({ done with skip := 0 } : HttpMarshaler).stages = rest := next
    refine ⟨⟨fun first others split => ?_, params⟩, after, rfl, _, rfl, ?_, ?_⟩
    · exact length_pos_iff.mpr (HttpMarshaler.stages_ne_nil _ first (split ▸ mem_cons_self))
    · rw [length_drop]
      omega
    · rw [left]
      unfold HttpMarshaler.remaining
      rw [finished, drop_zero]
  · have long := Nat.lt_of_not_le fits
    obtain ⟨stages, before, stops⟩ := same long
    rw [endStage_error emits m done long]
    have again : ({ m with skip := state.1.skip + state.2.room } : HttpMarshaler).stages =
        text :: rest := stages
    have later : ({ m with skip := state.1.skip + state.2.room } : HttpMarshaler).remaining =
        text.drop (state.1.skip + state.2.room) ++ rest.flatten := by
      unfold HttpMarshaler.remaining
      rw [again, flatten_cons, drop_append_of_le_length (Nat.le_of_lt long)]
    refine ⟨⟨fun first others split => ?_, before⟩, stops, ?_, rfl, _, rfl, ?_, ?_⟩
    · rw [again] at split
      obtain ⟨rfl, -⟩ := List.cons.inj split
      exact long
    · rw [later]
      intro none
      have nothing := drop_eq_nil_iff.mp (append_eq_nil_iff.mp none).1
      omega
    · rw [length_take, length_drop]
      omega
    · rw [left, later, ← append_assoc, ← drop_drop, take_append_drop]

/-! ### The stages -/

/-- The parameters are written, or each of those that are left is written with a separator. -/
def HttpMarshaler.Separated (m : HttpMarshaler) : Prop := m.paramptr = [] ∨ m.ampNext = true

theorem moves_methodUrlStage (good : state.1.Good) :
    Moves state (methodUrlStage state)
      (fun after => after.requestMethodUrl = false ∧ after.paramptr = state.1.paramptr ∧
        after.ampNext = state.1.ampNext ∧ after.stages = state.1.stages)
      fun after => after.requestMethodUrl = true ∧ after.paramptr = state.1.paramptr ∧
        (after.paramptr = [] ∨ after.needAmp = state.1.ampNext) ∧
        (state.1.requestMethodUrl = false → after.skip = 0 ∧
          ∃ text, state.1.stages = text :: after.stages) := by
  unfold methodUrlStage
  split
  · next done =>
    exact .skip good ⟨done, rfl, .inr (by rw [HttpMarshaler.ampNext, if_pos done]),
      fun unwritten => absurd (done.symm.trans unwritten) nofun⟩
  · next unwritten =>
    rw [Bool.not_eq_true] at unwritten
    obtain ⟨m, buf⟩ := state
    have params := good.params unwritten
    have amp : m.paramptr = [] ∨
        (requestMethodUrlSkipFill (Marshaling.fill (m, buf)) m.method m.url (m.params ≠ [])
          m.needAmp).2 = m.ampNext := by
      rw [HttpMarshaler.ampNext, if_neg (by rw [unwritten]; exact Bool.false_ne_true)]
      unfold requestMethodUrlSkipFill paramsSkipFill
      dsimp only
      split
      · next silent =>
        refine .inl (params.trans ?_)
        simpa using silent.2
      · exact .inr rfl
    have now : m.stages = methodUrlText m.method m.url (m.params ≠ []) ::
        (paramTexts m.ampNext m.paramptr ++ m.tailStages) := by
      rw [HttpMarshaler.stages, if_neg (by rw [unwritten]; exact Bool.false_ne_true)]
      rfl
    have later : ∀ needAmp, m.paramptr = [] ∨ needAmp = m.ampNext →
        ({ m with needAmp, requestMethodUrl := true } : HttpMarshaler).stages =
          paramTexts m.ampNext m.paramptr ++ m.tailStages := by
      intro needAmp which
      rcases which with none | same
      · show [] ++ (paramTexts needAmp m.paramptr ++ m.tailStages) = _
        rw [none]
        rfl
      · rw [← same]
        rfl
    generalize filled : requestMethodUrlSkipFill (Marshaling.fill (m, buf)) m.method m.url
      (m.params ≠ []) m.needAmp = result at amp
    obtain ⟨sf, needAmp⟩ := result
    have emits := emits_requestMethodUrl m.method m.url (m.params ≠ []) m.needAmp
    have next : ({ m with needAmp } : HttpMarshaler).ampNext = m.ampNext := by
      unfold HttpMarshaler.ampNext
      dsimp only
      rw [unwritten]
      rfl
    have same : ({ m with needAmp } : HttpMarshaler).stages = m.stages := by
      unfold HttpMarshaler.stages
      rw [next]
      rfl
    have moves := @moves_endStage (m, buf) _ _ _ { m with needAmp }
      { m with needAmp, requestMethodUrl := true }
      (fun after => after.requestMethodUrl = false ∧ after.paramptr = m.paramptr ∧
        after.ampNext = m.ampNext ∧ after.stages = m.stages)
      (fun after => after.requestMethodUrl = true ∧ after.paramptr = m.paramptr ∧
        (after.paramptr = [] ∨ after.needAmp = m.ampNext) ∧
        (m.requestMethodUrl = false → after.skip = 0 ∧ ∃ text, m.stages = text :: after.stages))
      emits good now (fun _ => ⟨same.trans now, fun _ => params, unwritten, rfl, next, same⟩)
      (later needAmp amp) nofun ⟨rfl, rfl, amp, fun _ => ⟨rfl, _, now.trans (by
        rw [← later needAmp amp]
        rfl)⟩⟩
    rw [filled] at moves
    dsimp only
    rw [filled]
    exact moves

/-- The parameters that are left, with a separator before each. -/
theorem moves_paramStages {pairs : List HttpPair} (good : state.1.Good)
    (done : state.1.requestMethodUrl = true) (same : state.1.paramptr = pairs)
    (fits : ∀ pair rest, pairs = pair :: rest → state.1.needAmp = true ∨
      (paramText false pair).length ≤ state.1.skip + state.2.room) :
    Moves state (paramStages pairs state) HttpMarshaler.Separated fun after =>
      after.requestMethodUrl = true ∧ after.paramptr = [] := by
  induction pairs generalizing state with
  | nil => exact .skip good ⟨done, same⟩
  | cons pair rest ih =>
    obtain ⟨m, buf⟩ := state
    have amp : m.ampNext = m.needAmp := by
      rw [HttpMarshaler.ampNext, if_pos done]
    have now : m.stages = paramText m.needAmp pair :: (paramTexts true rest ++ m.tailStages) := by
      rw [HttpMarshaler.stages, if_pos done, amp, same]
      rfl
    have next : ({ m with needAmp := true, paramptr := rest } : HttpMarshaler).stages =
        paramTexts true rest ++ m.tailStages := by
      rw [HttpMarshaler.stages, if_pos done, HttpMarshaler.ampNext, if_pos done]
      rfl
    have again : m.needAmp = true →
        ({ m with needAmp := true } : HttpMarshaler).stages = m.stages := by
      intro separated
      rw [← separated]
    have first : Moves (m, buf)
        (endStage (paramSkipFill (Marshaling.fill (m, buf)) m.needAmp pair)
          { m with needAmp := true } { m with needAmp := true, paramptr := rest })
        HttpMarshaler.Separated fun after => after.requestMethodUrl = true ∧ after.paramptr = rest ∧ after.needAmp = true := by
      refine moves_endStage (emits_paramSkipFill m.needAmp pair) good now ?_ next ?_ ⟨done, rfl, rfl⟩
      · intro long
        refine ⟨?_, fun undone => absurd (done.symm.trans undone) nofun, .inr ?_⟩
        on_goal 2 => rw [HttpMarshaler.ampNext, if_pos done]
        cases separated : m.needAmp with
        | true => rw [again separated, now, separated]
        | false =>
          rw [separated] at long
          rcases fits pair rest rfl with true | short
          · exact absurd (separated.symm.trans true) nofun
          · exact absurd short (Nat.not_le_of_lt long)
      · exact fun undone => absurd (done.symm.trans undone) nofun
    exact first.bind fun after afterGood ⟨written, left, separated⟩ =>
      ih afterGood written left fun _ _ _ => .inl separated

/-- The stages that are done when the parameters are written, and the request line, and the host, and the
length of the body, and the headers. -/
def HttpMarshaler.PastParams (m : HttpMarshaler) : Prop :=
  m.requestMethodUrl = true ∧ m.paramptr = []

def HttpMarshaler.PastVersion (m : HttpMarshaler) : Prop :=
  m.PastParams ∧ m.requestFragmentVersion = true

def HttpMarshaler.PastHost (m : HttpMarshaler) : Prop := m.PastVersion ∧ m.host = true

def HttpMarshaler.PastLength (m : HttpMarshaler) : Prop := m.PastHost ∧ m.contentLength = true

def HttpMarshaler.PastHdrs (m : HttpMarshaler) : Prop := m.PastLength ∧ m.hdrptr = []

theorem HttpMarshaler.PastParams.stages {m : HttpMarshaler} (past : m.PastParams) :
    m.stages = m.tailStages := by
  rw [HttpMarshaler.stages, past.1, past.2]
  rfl

theorem HttpMarshaler.PastVersion.stages {m : HttpMarshaler} (past : m.PastVersion) :
    m.stages = (if m.host then [] else [hdrText (hostPair m.url)]) ++
      ((if m.contentLength then [] else [hdrText (contentLengthPair m.bodyLen)]) ++
        (m.hdrptr.map hdrText ++ if m.eoh then [] else [ascii "\r\n"])) := by
  rw [past.1.stages, HttpMarshaler.tailStages, past.2]
  rfl

theorem HttpMarshaler.PastHost.stages {m : HttpMarshaler} (past : m.PastHost) :
    m.stages = (if m.contentLength then [] else [hdrText (contentLengthPair m.bodyLen)]) ++
      (m.hdrptr.map hdrText ++ if m.eoh then [] else [ascii "\r\n"]) := by
  rw [past.1.stages, past.2]
  rfl

theorem HttpMarshaler.PastLength.stages {m : HttpMarshaler} (past : m.PastLength) :
    m.stages = m.hdrptr.map hdrText ++ if m.eoh then [] else [ascii "\r\n"] := by
  rw [past.1.stages, past.2]
  rfl

theorem HttpMarshaler.PastHdrs.stages {m : HttpMarshaler} (past : m.PastHdrs) :
    m.stages = if m.eoh then [] else [ascii "\r\n"] := by
  rw [past.1.stages, past.2]
  rfl

/-- A stage that is written once. -/
theorem moves_flagStage {written : Bool} {fill : SkipFill → SkipFill} {text : Bytes}
    {rest : List Bytes} {done : HttpMarshaler} {post : HttpMarshaler → Prop}
    (emits : Emits fill text) (good : state.1.Good) (params : done.requestMethodUrl = true)
    (past : state.1.PastParams) (now : written = false → state.1.stages = text :: rest)
    (next : done.stages = rest) (already : written = true → post state.1)
    (after : post { done with skip := 0 }) :
    Moves state (if written then .ok state else endStage (fill state.fill) state.1 done)
      HttpMarshaler.Separated post := by
  have absurdly : ∀ {m : HttpMarshaler}, m.requestMethodUrl = true → m.requestMethodUrl = false →
      m.paramptr = m.params := fun done undone => absurd (done.symm.trans undone) nofun
  cases written with
  | true => exact .skip good (already rfl)
  | false =>
    exact moves_endStage emits good (now rfl) (fun _ => ⟨now rfl, absurdly past.1, .inl past.2⟩) next
      (absurdly params) after

variable {state : Marshaling}

section

variable (good : state.1.Good)

include good

theorem moves_fragmentVersionStage (past : state.1.PastParams) :
    Moves state (fragmentVersionStage state) HttpMarshaler.Separated HttpMarshaler.PastVersion := by
  refine moves_flagStage (emits_requestFragmentVersion state.1.url) good past.1 past
    (fun unwritten => ?_) rfl (fun written => ⟨past, written⟩) ⟨past, rfl⟩
  have next : ({ state.1 with requestFragmentVersion := true } : HttpMarshaler).PastVersion := ⟨past, rfl⟩
  rw [past.stages, HttpMarshaler.tailStages, unwritten, next.stages]
  rfl

theorem moves_hostStage (past : state.1.PastVersion) :
    Moves state (hostStage state) HttpMarshaler.Separated HttpMarshaler.PastHost := by
  refine moves_flagStage (emits_hdrLineSkipFill (hostPair state.1.url)) good past.1.1 past.1
    (fun unwritten => ?_) rfl (fun written => ⟨past, written⟩) ⟨past, rfl⟩
  have next : ({ state.1 with host := true } : HttpMarshaler).PastHost := ⟨past, rfl⟩
  rw [past.stages, unwritten, next.stages]
  rfl

theorem moves_contentLengthStage (past : state.1.PastHost) :
    Moves state (contentLengthStage state) HttpMarshaler.Separated HttpMarshaler.PastLength := by
  refine moves_flagStage (emits_hdrLineSkipFill (contentLengthPair state.1.bodyLen)) good past.1.1.1
    past.1.1 (fun unwritten => ?_) rfl (fun written => ⟨past, written⟩) ⟨past, rfl⟩
  have next : ({ state.1 with contentLength := true } : HttpMarshaler).PastLength := ⟨past, rfl⟩
  rw [past.stages, unwritten, next.stages]
  rfl

theorem moves_hdrStages {pairs : List HttpPair} (past : state.1.PastLength)
    (same : state.1.hdrptr = pairs) :
    Moves state (hdrStages pairs state) HttpMarshaler.Separated HttpMarshaler.PastHdrs := by
  induction pairs generalizing state with
  | nil => exact .skip good ⟨past, same⟩
  | cons pair rest ih =>
    rw [hdrStages]
    have method : state.1.requestMethodUrl = true := past.1.1.1.1
    have first : Moves state
        (endStage (hdrLineSkipFill state.fill pair) state.1 { state.1 with hdrptr := rest })
        HttpMarshaler.Separated fun after => after.PastLength ∧ after.hdrptr = rest := by
      refine @moves_flagStage state false _ _ _ _ _ (emits_hdrLineSkipFill pair) good method
        past.1.1.1 (fun _ => ?_) rfl nofun ⟨past, rfl⟩
      have next : ({ state.1 with hdrptr := rest } : HttpMarshaler).PastLength := past
      rw [past.stages, same, next.stages]
      rfl
    exact first.bind fun after afterGood ⟨afterPast, left⟩ => ih afterGood afterPast left

theorem moves_eohStage (past : state.1.PastHdrs) :
    Moves state (eohStage state) HttpMarshaler.Separated fun after => after.stages = [] := by
  have last : ({ state.1 with eoh := true } : HttpMarshaler).PastHdrs := past
  refine moves_flagStage (emits_dstrSkipFill (ascii "\r\n")) good past.1.1.1.1.1
    past.1.1.1.1 (fun unwritten => ?_) rfl (fun written => ?_) last.stages
  · rw [past.stages, unwritten, last.stages]
    rfl
  · rw [past.stages, written]
    rfl

end

/-- The stages after the parameters. -/
def pastParamStages (state : Marshaling) : Except Marshaling Marshaling := do
  let state ← fragmentVersionStage state
  let state ← hostStage state
  let state ← contentLengthStage state
  let state ← hdrStages state.1.hdrptr state
  eohStage state

theorem moves_pastParamStages (good : state.1.Good) (past : state.1.PastParams) :
    Moves state (pastParamStages state) HttpMarshaler.Separated fun after => after.stages = [] := by
  refine (moves_fragmentVersionStage good past).bind fun after good past => ?_
  refine (moves_hostStage good past).bind fun after good past => ?_
  refine (moves_contentLengthStage good past).bind fun after good past => ?_
  exact (moves_hdrStages good past rfl).bind fun after good past => moves_eohStage good past

/-! ### One call -/

/-- The stages of a call. -/
def callStages (state : Marshaling) : Except Marshaling Marshaling := do
  let state ← methodUrlStage state
  let state ← paramStages state.1.paramptr state
  pastParamStages state

theorem httpMarshalReq_eq (m : HttpMarshaler) (buf : OutBuf) :
    httpMarshalReq m buf = match callStages (m, buf) with
      | .error (m, buf) => (m, buf, false)
      | .ok (m, buf) => (m, buf, true) := rfl

theorem Moves.mono {stop weaker post : HttpMarshaler → Prop} (moves : Moves state result stop post)
    (weaken : ∀ m, stop m → weaker m) : Moves state result weaker post := by
  cases result with
  | ok after => exact moves
  | error after =>
    obtain ⟨good, stops, rest⟩ := moves
    exact ⟨good, weaken _ stops, rest⟩

theorem moves_callStages (good : state.1.Good) (separated : state.1.Separated) :
    Moves state (callStages state) HttpMarshaler.Separated fun after => after.stages = [] := by
  have first := (moves_methodUrlStage good).mono fun m stops =>
    show m.Separated from by
      unfold HttpMarshaler.Separated
      rw [stops.2.1, stops.2.2.1]
      exact separated
  refine first.bind fun after good past => ?_
  obtain ⟨done, same, amp, -⟩ := past
  refine (moves_paramStages good done rfl fun pair rest some => ?_).bind fun after good past =>
    moves_pastParamStages good past
  rcases amp with none | amp
  · exact absurd (none.symm.trans some) nofun
  · rcases separated with none | separator
    · exact absurd ((same.trans none).symm.trans some) nofun
    · exact .inl (amp.trans separator)

/-- A buffer with room in it. -/
abbrev FreeBuf : Type := { buf : OutBuf // buf.content.length < buf.size }

/-- A call, with the bytes that it puts into the buffer. -/
def marshalStep (m : HttpMarshaler) (buf : FreeBuf) : HttpMarshaler × Bytes × Bool :=
  let result := httpMarshalReq m buf.1
  (result.1, result.2.1.content.drop buf.1.content.length, result.2.2)

variable {buf : FreeBuf}

theorem marshalStep_ok {m after : HttpMarshaler} {filled : OutBuf}
    (result : callStages (m, buf.1) = .ok (after, filled))
    (content : filled.content = buf.1.content ++ out) : marshalStep m buf = (after, out, true) := by
  rw [marshalStep, httpMarshalReq_eq, result]
  dsimp only
  rw [content, drop_left]

theorem marshalStep_error {m after : HttpMarshaler} {filled : OutBuf}
    (result : callStages (m, buf.1) = .error (after, filled))
    (content : filled.content = buf.1.content ++ out) :
    marshalStep m buf = (after, out, false) := by
  rw [marshalStep, httpMarshalReq_eq, result]
  dsimp only
  rw [content, drop_left]

theorem remaining_of_stages {m : HttpMarshaler} (none : m.stages = []) : m.remaining = [] := by
  rw [HttpMarshaler.remaining, none, flatten_nil, drop_nil]

theorem FreeBuf.room_pos (buf : FreeBuf) : 0 < buf.1.room := Nat.sub_pos_of_lt buf.2

/-- A call that goes through its stages writes a beginning of what is left. -/
theorem takes_of_moves {m : HttpMarshaler}
    (moves : Moves (m, buf.1) (callStages (m, buf.1)) HttpMarshaler.Separated
      fun after => after.stages = []) :
    Resumable.Takes HttpMarshaler.remaining m (marshalStep m buf) ∧
      (marshalStep m buf).1.Good ∧ (marshalStep m buf).1.Separated ∧
      ((marshalStep m buf).2.2 = false → (marshalStep m buf).2.1.length = buf.1.room) := by
  cases result : callStages (m, buf.1) with
  | ok after =>
    rw [result] at moves
    obtain ⟨after, filled⟩ := after
    obtain ⟨afterGood, done, size, out, content, short, split⟩ := moves
    have none := remaining_of_stages done
    rw [marshalStep_ok result content]
    refine ⟨⟨split, ⟨fun _ => none, fun _ => rfl⟩, fun some empty => some ?_⟩, afterGood, ?_, nofun⟩
    · dsimp only at empty split none
      rw [split, none, empty]
      rfl
    · unfold HttpMarshaler.stages at done
      have params := (append_eq_nil_iff.mp (append_eq_nil_iff.mp done).2).1
      cases left : after.paramptr with
      | nil => exact .inl left
      | cons pair rest => exact absurd (left ▸ params) nofun
  | error after =>
    rw [result] at moves
    obtain ⟨after, filled⟩ := after
    obtain ⟨afterGood, stops, left, size, out, content, full, split⟩ := moves
    rw [marshalStep_error result content]
    have positive := buf.room_pos
    refine ⟨⟨split, ⟨nofun, fun none => absurd none left⟩, fun _ empty => ?_⟩, afterGood, stops,
      fun _ => full⟩
    dsimp only at empty full
    rw [← full, empty] at positive
    exact absurd positive (Nat.lt_irrefl 0)

theorem takes_marshalStep {m : HttpMarshaler} (good : m.Good) (separated : m.Separated)
    (buf : FreeBuf) :
    Resumable.Takes HttpMarshaler.remaining m (marshalStep m buf) ∧
      (marshalStep m buf).1.Good ∧ (marshalStep m buf).1.Separated ∧
      ((marshalStep m buf).2.2 = false → (marshalStep m buf).2.1.length = buf.1.room) :=
  takes_of_moves (moves_callStages good separated)

end Splintermail
