/-
This file decides for which buffers a request is written as it is written into one.

If every parameter has a separator before it, the buffers do not matter. If the first one
has none, a buffer must not end between the end of the URL and the end of that parameter:
what is written then has one byte more.
-/

import Splintermail.Http.Resume

namespace Splintermail

open List Resumable

/-! ### What should hold of every request -/

/-- The bytes of the calls with these buffers, up to the one that completes the request. -/
def marshalCalls (m : HttpMarshaler) (bufs : List FreeBuf) : Option Bytes :=
  calls marshalStep m bufs

/-- One call writes the text into every buffer that has room for it, and some calls with the buffers
of a sequence write the same text. -/
def Independent (m : HttpMarshaler) (bufs : Nat → FreeBuf) : Prop :=
  ∃ text, (∀ buf : FreeBuf, text.length ≤ buf.1.room →
      (marshalStep m buf).2 = (text, true)) ∧
    ∃ count, marshalCalls m ((range count).map bufs) = some text

/-- The room in the first buffers of a sequence. -/
def totalRoom (bufs : Nat → FreeBuf) : Nat → Nat
  | 0 => 0
  | count + 1 => totalRoom bufs count + (bufs count).1.room

/-- A buffer ends after the first `before` bytes, and within `size` bytes after these. -/
def CutsWithin (before size : Nat) (bufs : Nat → FreeBuf) : Prop :=
  ∃ count, before ≤ totalRoom bufs count ∧ totalRoom bufs count < before + size

/-! ### Requests with separators -/

theorem totalRoom_succ (bufs : Nat → FreeBuf) (count : Nat) :
    totalRoom bufs (count + 1) = (bufs 0).1.room + totalRoom (fun i => bufs (i + 1)) count := by
  induction count with
  | zero => simp [totalRoom]
  | succ count ih =>
    rw [totalRoom, ih, Nat.add_assoc]
    rfl

/-- The first buffer does not reach these bytes. -/
theorem cutsWithin_before {before size : Nat} {bufs : Nat → FreeBuf}
    (short : (bufs 0).1.room < before) :
    CutsWithin before size bufs ↔
      CutsWithin (before - (bufs 0).1.room) size fun i => bufs (i + 1) := by
  constructor
  · rintro ⟨count, reaches, within⟩
    cases count with
    | zero =>
      have zero : totalRoom bufs 0 = 0 := rfl
      omega
    | succ count =>
      rw [totalRoom_succ] at reaches within
      exact ⟨count, by omega, by omega⟩
  · rintro ⟨count, reaches, within⟩
    refine ⟨count + 1, ?_, ?_⟩ <;> rw [totalRoom_succ] <;> omega

theorem not_cutsWithin_after {before size : Nat} {bufs : Nat → FreeBuf} (some : 0 < before)
    (long : before + size ≤ (bufs 0).1.room) : ¬ CutsWithin before size bufs := by
  rintro ⟨count, reaches, within⟩
  cases count with
  | zero =>
    have zero : totalRoom bufs 0 = 0 := rfl
    omega
  | succ count =>
    rw [totalRoom_succ] at within
    omega

variable {m : HttpMarshaler} {bufs : Nat → FreeBuf}

/-- A call with room for everything that is left writes it. -/
theorem marshalStep_whole {buf : FreeBuf}
    (takes : Takes HttpMarshaler.remaining m (marshalStep m buf))
    (full : (marshalStep m buf).2.2 = false → (marshalStep m buf).2.1.length = buf.1.room)
    (room : m.remaining.length ≤ buf.1.room) : (marshalStep m buf).2 = (m.remaining, true) := by
  have split := takes.split
  have last := takes.last
  obtain ⟨after, out, done, result⟩ : ∃ after out done, marshalStep m buf = (after, out, done) :=
    ⟨_, _, _, rfl⟩
  rw [result] at full split last ⊢
  cases done with
  | true => rw [split, last.mp rfl, append_nil]
  | false =>
    have filled : out.length = buf.1.room := full rfl
    have length : m.remaining.length = out.length + after.remaining.length := by
      rw [split, length_append]
    have none : after.remaining = [] := length_eq_zero_iff.mp (by omega)
    exact absurd (last.mpr none) nofun

theorem calls_separated (good : m.Good) (separated : m.Separated) (bufs : Nat → FreeBuf) :
    ∃ count, marshalCalls m ((range count).map bufs) = some m.remaining :=
  @Resumable.calls_finite _ _ _ marshalStep HttpMarshaler.remaining
    (fun m => m.Good ∧ m.Separated) (fun _ buf both => (takes_marshalStep both.1 both.2 buf).1)
    (fun _ buf both => ⟨(takes_marshalStep both.1 both.2 buf).2.1,
      (takes_marshalStep both.1 both.2 buf).2.2.1⟩) m ⟨good, separated⟩ bufs

theorem calls_separated_sound (good : m.Good) (separated : m.Separated) {bufs : List FreeBuf}
    {out : Bytes} (written : marshalCalls m bufs = some out) : out = m.remaining :=
  @Resumable.calls_sound _ _ _ marshalStep HttpMarshaler.remaining
    (fun m => m.Good ∧ m.Separated) (fun _ buf both => (takes_marshalStep both.1 both.2 buf).1)
    (fun _ buf both => ⟨(takes_marshalStep both.1 both.2 buf).2.1,
      (takes_marshalStep both.1 both.2 buf).2.2.1⟩) m ⟨good, separated⟩ bufs out written

/-! ### A first parameter without a separator -/

/-- The request line is not written yet, and the first parameter has no separator before it. -/
structure BeginsBare (m : HttpMarshaler) (pair : HttpPair) (rest : List HttpPair) : Prop where
  good : m.Good
  unwritten : m.requestMethodUrl = false
  params : m.paramptr = pair :: rest
  bare : m.ampNext = false

variable {pair : HttpPair} {rest : List HttpPair}

theorem BeginsBare.stages (begins : BeginsBare m pair rest) :
    m.stages = methodUrlText m.method m.url (m.params ≠ []) ::
      paramText false pair :: (paramTexts true rest ++ m.tailStages) := by
  rw [HttpMarshaler.stages, begins.unwritten, begins.params, begins.bare]
  rfl

/-- What one call does while the first parameter has no separator. -/
inductive BareCall (m : HttpMarshaler) (pair : HttpPair) (rest : List HttpPair) (buf : FreeBuf) :
    Prop where
  | early (after : HttpMarshaler) (out : Bytes) (result : marshalStep m buf = (after, out, false))
      (full : out.length = buf.1.room) (split : m.remaining = out ++ after.remaining)
      (begins : BeginsBare after pair rest) (same : after.stages = m.stages)
      (later : after.skip = m.skip + buf.1.room)
  | cut (after : HttpMarshaler) (out : Bytes) (result : marshalStep m buf = (after, out, false))
      (full : out.length = buf.1.room) (good : after.Good) (separated : after.Separated)
      (longer : out.length + after.remaining.length = m.remaining.length + 1)
      (reaches : (methodUrlText m.method m.url (m.params ≠ [])).length ≤ m.skip + buf.1.room)
      (within : m.skip + buf.1.room <
        (methodUrlText m.method m.url (m.params ≠ [])).length + (paramText false pair).length)
  | whole (moves : Moves (m, buf.1) (callStages (m, buf.1)) HttpMarshaler.Separated
        fun after => after.stages = [])
      (past : (methodUrlText m.method m.url (m.params ≠ [])).length + (paramText false pair).length ≤
        m.skip + buf.1.room)

theorem bareCall (begins : BeginsBare m pair rest) (buf : FreeBuf) : BareCall m pair rest buf := by
  have first := @moves_methodUrlStage (m, buf.1) begins.good
  cases result : methodUrlStage (m, buf.1) with
  | error after =>
    rw [result] at first
    obtain ⟨after, filled⟩ := after
    obtain ⟨good, ⟨unwritten, params, amp, stages⟩, left, size, out, content, full, split⟩ := first
    dsimp only at unwritten params amp stages size content full split
    have call : callStages (m, buf.1) = .error (after, filled) := by
      rw [callStages, result]
      rfl
    have bare : BeginsBare after pair rest :=
      ⟨good, unwritten, params.trans begins.params, amp.trans begins.bare⟩
    have later : after.skip = m.skip + buf.1.room := by
      have before := begins.good.within _ _ begins.stages
      have within : after.skip < _ := good.within _ _ (stages.trans begins.stages)
      have length : m.remaining.length = out.length + after.remaining.length := by
        rw [split, length_append]
      unfold HttpMarshaler.remaining at length
      rw [length_drop, length_drop, stages, begins.stages, flatten_cons, length_append] at length
      omega
    exact .early after out (marshalStep_error call content) full split bare stages later
  | ok middle =>
    rw [result] at first
    obtain ⟨middle, filled⟩ := middle
    obtain ⟨good, ⟨done, params, amp, fresh⟩, size, out, content, short, split⟩ := first
    dsimp only at done params amp fresh size content short split
    obtain ⟨zero, text, stages⟩ := fresh begins.unwritten
    obtain ⟨rfl, middleStages⟩ := cons.inj (begins.stages.symm.trans stages)
    have within := begins.good.within _ _ begins.stages
    have left : middle.remaining = middle.stages.flatten := by
      rw [HttpMarshaler.remaining, zero, drop_zero]
    have length : m.remaining.length = out.length + middle.remaining.length := by
      rw [split, length_append]
    have written : out.length + m.skip = (methodUrlText m.method m.url (m.params ≠ [])).length := by
      rw [left] at length
      unfold HttpMarshaler.remaining at length
      rw [length_drop, stages, flatten_cons, length_append] at length
      omega
    have room := OutBuf.room_append size content
    have some : middle.paramptr = pair :: rest := params.trans begins.params
    have amp : middle.needAmp = false := by
      rcases amp with none | same
      · cases some.symm.trans none
      · exact same.trans begins.bare
    have call : callStages (m, buf.1) =
        paramStages (pair :: rest) (middle, filled) >>= pastParamStages := by
      rw [callStages, result]
      show paramStages middle.paramptr (middle, filled) >>= pastParamStages = _
      rw [some]
    by_cases fits : (paramText false pair).length ≤ filled.room
    · refine .whole ?_ (by omega)
      rw [call]
      have head : Moves (m, buf.1) (.ok (middle, filled)) HttpMarshaler.Separated fun _ => True :=
        ⟨good, trivial, size, out, content, short, split⟩
      refine head.andThen ((moves_paramStages good done some fun first others same => ?_).bind
        fun after good past => moves_pastParamStages good past)
      obtain ⟨rfl, rfl⟩ := cons.inj same
      exact .inr (Nat.le_trans fits (Nat.le_add_left _ _))
    · -- the parameter is written again with a separator, which counts as one of the bytes to skip
      have long := Nat.lt_of_not_le fits
      let after : HttpMarshaler := { middle with needAmp := true, skip := filled.room }
      have again : after.stages = paramText true pair :: (paramTexts true rest ++ middle.tailStages) := by
        rw [HttpMarshaler.stages]
        show (if middle.requestMethodUrl then [] else _) ++
          (paramTexts (if middle.requestMethodUrl then true else _) middle.paramptr ++ _) = _
        rw [done, some]
        rfl
      have now : middle.stages = paramText false pair :: (paramTexts true rest ++ middle.tailStages) := by
        rw [HttpMarshaler.stages, HttpMarshaler.ampNext, done, some, amp]
        rfl
      have separator : (paramText true pair).length = (paramText false pair).length + 1 := by
        simp [paramText, ascii]
      have stops : paramStages (pair :: rest) (middle, filled) =
          .error (after, ⟨filled.content ++ (paramText false pair).take filled.room, filled.size⟩) := by
        have ended := @endStage_error (middle, filled) _ _ (emits_paramSkipFill middle.needAmp pair)
          { middle with needAmp := true } { middle with needAmp := true, paramptr := rest } (by
            dsimp only
            rw [amp, zero, Nat.zero_add]
            exact long)
        rw [paramStages]
        dsimp only at ended ⊢
        rw [ended, amp, zero, Nat.zero_add]
        rfl
      have result : callStages (m, buf.1) =
          .error (after, ⟨filled.content ++ (paramText false pair).take filled.room, filled.size⟩) := by
        rw [call, stops]
        rfl
      have added : filled.content ++ (paramText false pair).take filled.room =
          buf.1.content ++ (out ++ (paramText false pair).take filled.room) := by
        rw [content, append_assoc]
      have filledUp : (out ++ (paramText false pair).take filled.room).length = buf.1.room := by
        rw [length_append, length_take]
        omega
      have rest' : after.remaining.length =
          (paramText true pair).length + (paramTexts true rest ++ middle.tailStages).flatten.length -
            filled.room := by
        rw [HttpMarshaler.remaining, again, length_drop, flatten_cons, length_append]
      have before : middle.remaining.length =
          (paramText false pair).length +
            (paramTexts true rest ++ middle.tailStages).flatten.length := by
        rw [left, now, flatten_cons, length_append]
      refine .cut after _ (marshalStep_error result added) filledUp ⟨fun first others same => ?_, ?_⟩
        (.inr ?_) ?_ (by omega) (by omega)
      · obtain ⟨rfl, -⟩ := cons.inj (again.symm.trans same)
        show filled.room < _
        omega
      · exact fun unwritten => by cases done.symm.trans unwritten
      · show (if middle.requestMethodUrl then true else _) = true
        rw [done]
        rfl
      · rw [filledUp]
        omega

/-- Where the first parameter begins, from the place that is reached. -/
def bareStart (m : HttpMarshaler) : Nat :=
  (methodUrlText m.method m.url (m.params ≠ [])).length - m.skip

/-- The calls with the buffers of a sequence, while the first parameter has no separator. -/
theorem calls_bare (begins : BeginsBare m pair rest) (bufs : Nat → FreeBuf) :
    (¬ CutsWithin (bareStart m) (paramText false pair).length bufs →
      ∃ count, marshalCalls m ((range count).map bufs) = some m.remaining) ∧
    (CutsWithin (bareStart m) (paramText false pair).length bufs →
      ∀ count out, marshalCalls m ((range count).map bufs) = some out →
        out.length = m.remaining.length + 1) := by
  induction size : m.remaining.length using Nat.strongRecOn generalizing m bufs with
  | ind size ih =>
    have positive := (bufs 0).room_pos
    have within := begins.good.within _ _ begins.stages
    have range : ∀ count, (range (count + 1)).map bufs =
        bufs 0 :: (range count).map fun i => bufs (i + 1) := by
      intro count
      rw [range_succ_eq_map, map_cons, map_map]
      rfl
    cases bareCall begins (bufs 0) with
    | early after out result full split bare same later =>
      have text : methodUrlText after.method after.url (after.params ≠ []) =
          methodUrlText m.method m.url (m.params ≠ []) :=
        (cons.inj (bare.stages.symm.trans (same.trans begins.stages))).1
      have next := bare.good.within _ _ bare.stages
      have start : bareStart after = bareStart m - (bufs 0).1.room := by
        unfold bareStart
        rw [text, later]
        omega
      have short : (bufs 0).1.room < bareStart m := by
        unfold bareStart
        rw [text] at next
        omega
      have length : m.remaining.length = out.length + after.remaining.length := by
        rw [split, length_append]
      obtain ⟨uncut, cut⟩ := ih after.remaining.length (by omega) bare (fun i => bufs (i + 1)) rfl
      rw [start] at uncut cut
      refine ⟨fun apart => ?_, fun cuts count whole written => ?_⟩
      · obtain ⟨count, written⟩ := uncut fun cuts => apart ((cutsWithin_before short).mpr cuts)
        refine ⟨count + 1, ?_⟩
        unfold marshalCalls at written ⊢
        rw [range, calls_more result, written, split]
        rfl
      · cases count with
        | zero => exact absurd written nofun
        | succ count =>
          unfold marshalCalls at written
          rw [range, calls_more result] at written
          obtain ⟨more, rest, rfl⟩ := Option.map_eq_some_iff.mp written
          rw [length_append, cut ((cutsWithin_before short).mp cuts) count more rest, ← size,
            length, Nat.add_assoc]
    | cut after out result full good separated longer reaches inside =>
      have total : totalRoom bufs 1 = (bufs 0).1.room := Nat.zero_add _
      refine ⟨fun apart => ?_, fun _ count whole written => ?_⟩
      · refine absurd ⟨1, ?_, ?_⟩ apart <;> rw [total] <;> unfold bareStart <;> omega
      · cases count with
        | zero => exact absurd written nofun
        | succ count =>
          unfold marshalCalls at written
          rw [range, calls_more result] at written
          obtain ⟨more, rest, rfl⟩ := Option.map_eq_some_iff.mp written
          rw [length_append, calls_separated_sound good separated rest, longer, size]
    | whole moves past =>
      have start : 0 < bareStart m := Nat.sub_pos_of_lt within
      have apart : ¬ CutsWithin (bareStart m) (paramText false pair).length bufs :=
        not_cutsWithin_after start (by unfold bareStart; omega)
      refine ⟨fun _ => ?_, fun cuts => absurd cuts apart⟩
      obtain ⟨takes, good, separated, -⟩ := takes_of_moves moves
      have split := takes.split
      have last := takes.last
      obtain ⟨after, out, done, result⟩ : ∃ after out done,
          marshalStep m (bufs 0) = (after, out, done) := ⟨_, _, _, rfl⟩
      rw [result] at split last good separated
      cases done with
      | true =>
        have written := @Resumable.calls_last _ _ _ marshalStep _ _ _ ((List.range 0).map bufs) _ result
        refine ⟨1, written.trans ?_⟩
        rw [split, last.mp rfl, append_nil]
      | false =>
        obtain ⟨count, written⟩ := calls_separated good separated fun i => bufs (i + 1)
        refine ⟨count + 1, ?_⟩
        unfold marshalCalls at written ⊢
        rw [range, calls_more result, written, split]
        rfl

theorem marshalStep_bare (begins : BeginsBare m pair rest) {buf : FreeBuf}
    (room : m.remaining.length ≤ buf.1.room) : (marshalStep m buf).2 = (m.remaining, true) := by
  have length : m.remaining.length =
      bareStart m + ((paramText false pair).length +
        (paramTexts true rest ++ m.tailStages).flatten.length) := by
    have within := begins.good.within _ _ begins.stages
    unfold HttpMarshaler.remaining bareStart
    rw [length_drop, begins.stages, flatten_cons, flatten_cons, length_append, length_append]
    omega
  cases bareCall begins buf with
  | early after out result full split bare same later =>
    have text : methodUrlText after.method after.url (after.params ≠ []) =
        methodUrlText m.method m.url (m.params ≠ []) :=
      (cons.inj (bare.stages.symm.trans (same.trans begins.stages))).1
    have next := bare.good.within _ _ bare.stages
    unfold bareStart at length
    rw [text] at next
    omega
  | cut after out result full good separated longer reaches inside =>
    unfold bareStart at length
    omega
  | whole moves past =>
    obtain ⟨takes, -, -, full⟩ := takes_of_moves moves
    exact marshalStep_whole takes full room

/-! ### Every request -/

/-- A buffer with so much room. -/
def emptyBuf (room : Nat) : FreeBuf := ⟨⟨[], room + 1⟩, Nat.succ_pos room⟩

/-- What one large buffer holds is what is left. -/
theorem independent_of_oneShot
    (oneShot : ∀ buf : FreeBuf, m.remaining.length ≤ buf.1.room →
      (marshalStep m buf).2 = (m.remaining, true)) :
    Independent m bufs ↔
      ∃ count, marshalCalls m ((range count).map bufs) = some m.remaining := by
  refine ⟨fun ⟨text, single, written⟩ => ?_, fun written => ⟨m.remaining, oneShot, written⟩⟩
  have large : text.length ≤ (emptyBuf (text.length + m.remaining.length)).1.room := by
    show _ ≤ _ + 1 - 0
    omega
  have enough : m.remaining.length ≤ (emptyBuf (text.length + m.remaining.length)).1.room := by
    show _ ≤ _ + 1 - 0
    omega
  obtain ⟨rfl, -⟩ := Prod.mk.inj ((single _ large).symm.trans (oneShot _ enough))
  exact written

theorem good_httpMarshaler (method : HttpMethod) (url : Url) (params hdrs : List HttpPair)
    (bodyLen : Nat) : (httpMarshaler method url params hdrs bodyLen).Good where
  within text _ stages :=
    length_pos_iff.mpr (HttpMarshaler.stages_ne_nil _ text (stages ▸ mem_cons_self))
  params _ := rfl

/-- With a separator before its first parameter a request does not depend on the buffers. -/
theorem independent_separated (good : m.Good) (separated : m.Separated) : Independent m bufs := by
  refine (independent_of_oneShot fun buf room => ?_).mpr (calls_separated good separated bufs)
  obtain ⟨takes, -, -, full⟩ := takes_marshalStep good separated buf
  exact marshalStep_whole takes full room

/-- Without one it depends on where the buffers end. -/
theorem independent_bare (begins : BeginsBare m pair rest) :
    Independent m bufs ↔ ¬ CutsWithin (bareStart m) (paramText false pair).length bufs := by
  obtain ⟨uncut, cut⟩ := calls_bare begins bufs
  rw [independent_of_oneShot fun buf room => marshalStep_bare begins room]
  refine ⟨fun ⟨count, written⟩ cuts => ?_, uncut⟩
  exact absurd (cut cuts count _ written) (Nat.ne_of_lt (Nat.lt_succ_self _))

theorem beginsBare_httpMarshaler (method : HttpMethod) {url : Url} (pair : HttpPair)
    (rest hdrs : List HttpPair) (bodyLen : Nat) (bare : urlNeedsAmp url = false) :
    BeginsBare (httpMarshaler method url (pair :: rest) hdrs bodyLen) pair rest :=
  ⟨good_httpMarshaler method url (pair :: rest) hdrs bodyLen, rfl, rfl, bare⟩

/-- A request is written the same way with the buffers of a sequence and with one large buffer if and
only if its first parameter has a separator before it, or no buffer ends between the end of the URL and
the end of that parameter. -/
theorem independent_iff (method : HttpMethod) (url : Url) (params hdrs : List HttpPair)
    (bodyLen : Nat) (bufs : Nat → FreeBuf) :
    Independent (httpMarshaler method url params hdrs bodyLen) bufs ↔
      ∀ pair rest, params = pair :: rest → urlNeedsAmp url = false →
        ¬ CutsWithin (methodUrlText method url true).length (paramText false pair).length bufs := by
  have good := good_httpMarshaler method url params hdrs bodyLen
  cases params with
  | nil => exact ⟨nofun, fun _ => independent_separated good (.inl rfl)⟩
  | cons pair rest =>
    cases amp : urlNeedsAmp url with
    | true => exact ⟨nofun, fun _ => independent_separated good (.inr amp)⟩
    | false =>
      have begins := beginsBare_httpMarshaler method pair rest hdrs bodyLen amp
      rw [independent_bare begins]
      constructor
      · intro apart other others same _
        obtain ⟨rfl, rfl⟩ := cons.inj same
        exact apart
      · intro apart
        exact apart pair rest rfl rfl

/-- The URL of a host. -/
def hostUrl : Url := ⟨⟨ascii "h", 0, 1⟩, ⟨ascii "h", 1, 0⟩, ⟨[], 0, 0⟩, ⟨[], 0, 0⟩, ⟨[], 0, 0⟩⟩

/-- A request with a parameter is not written the same way with buffers of seven bytes, of which the
first ends after `GET /?k`. -/
theorem independent_fails :
    ¬ Independent (httpMarshaler .get hostUrl [⟨ascii "k", ascii "v"⟩] [] 0) fun _ => emptyBuf 6 := by
  have begins := beginsBare_httpMarshaler .get ⟨ascii "k", ascii "v"⟩ [] [] 0
    (show urlNeedsAmp hostUrl = false by decide)
  rw [independent_bare begins, not_not]
  exact ⟨1, by decide, by decide⟩

end Splintermail
