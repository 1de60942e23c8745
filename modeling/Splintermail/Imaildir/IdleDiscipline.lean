/-
This file is about the IDLE command: an `up_t` leaves an IDLE with a DONE before it
sends anything else, and begins one only when nothing else is going on.

What is asked of the commands is stated by a monitor, which is told of the calls into
the `up_t` and of the commands that they send, in their order. It knows the commands
that are not answered yet, the IDLE and how far it is, whether IDLE is to be blocked,
and whether the mailbox was unselected. The monitor refuses a command that is out of
place. The `imaildir_t` is any at all.

Every command is sent after a DONE where one is needed, except for the bootstrap: a
UIDVALIDITY that differs while an IDLE is outstanding makes the `up_t` send a FETCH in
the middle of it.
-/

import Splintermail.Imaildir.Up
import Splintermail.Lib.Run

namespace Splintermail

open List UpCallback
open Outcome (Sat)

/-! ### The monitor -/

/-- How far an IDLE is: it was sent, the `+` has come, or the DONE was sent. -/
inductive IdlePhase where
  | sent
  | plus
  | done
  deriving DecidableEq

/-- What an observer of the connection knows. -/
structure IdleMonitor where
  awaited : List UpTag := []
  idle : Option (UpTag × IdlePhase) := none
  blocked : Bool := false
  unselected : Bool := false
  deriving DecidableEq

namespace IdleMonitor

/-- A command may be sent: DONE once after the `+`, IDLE when nothing is awaited and IDLE is not to
be blocked, others not during an IDLE; nothing after an UNSELECT. -/
def allows (monitor : IdleMonitor) (cmd : UpCmd) : Bool :=
  !monitor.unselected && match cmd with
    | .idleDone => monitor.idle.any fun idle => idle.2 = .plus
    | .idle _ => monitor.idle.isNone && monitor.awaited.isEmpty && !monitor.blocked
    | _ => monitor.idle.all fun idle => idle.2 = .done

/-- A command is sent. -/
def note (monitor : IdleMonitor) (cmd : UpCmd) : IdleMonitor :=
  let monitor := { monitor with awaited := monitor.awaited ++ cmd.tag.toList }
  match cmd with
  | .idleDone => { monitor with idle := monitor.idle.map fun idle => (idle.1, .done) }
  | .idle tag => { monitor with idle := some (.up tag, .sent) }
  | .unselect _ => { monitor with unselected := true }
  | _ => monitor

/-- A command is observed. -/
def emit (monitor : IdleMonitor) (cmd : UpCmd) : Except UpCmd IdleMonitor :=
  if monitor.allows cmd then .ok (monitor.note cmd) else .error cmd

/-- Some commands are observed. -/
def emitAll (monitor : IdleMonitor) (cmds : List UpCmd) : Except UpCmd IdleMonitor :=
  cmds.foldlM emit monitor

/-- A command is answered. -/
def answer (monitor : IdleMonitor) (tag : UpTag) : IdleMonitor :=
  if monitor.awaited.head? = some tag then
    { monitor with
      awaited := monitor.awaited.tail
      idle := monitor.idle.filter fun idle => idle.1 ≠ tag }
  else monitor

/-- A call into the `up_t` is observed. -/
def hear {M : Type} (monitor : IdleMonitor) : UpInput M → IdleMonitor
  | .plusResp => { monitor with
    idle := monitor.idle.map fun idle => (idle.1, if idle.2 = .sent then .plus else idle.2) }
  | .stResp st =>
    match st.tag with
    | some tag => monitor.answer tag
    | none => monitor
  | .idleBlock => { monitor with blocked := true }
  | .idleUnblock => { monitor with blocked := false }
  | _ => monitor

theorem emitAll_append (monitor : IdleMonitor) (first second : List UpCmd) :
    monitor.emitAll (first ++ second) = monitor.emitAll first >>= fun next => next.emitAll second :=
  foldlM_append

end IdleMonitor

/-! ### What the `up_t` shows -/

/-- The part of an `up_t` that the monitor can be compared with. -/
structure UpFace where
  cbs : List UpCb
  cmds : List (UpCmd × UpCb)
  tag : Nat
  idle : UpIdle
  want : Bool
  unselected : Bool
  bootstrap : UpBootstrap
  ready : Bool
  selected : Bool

def Up.face (up : Up) : UpFace where
  cbs := up.cbs
  cmds := up.relay.cmds
  tag := up.tag
  idle := up.idle
  want := up.idleBlock.want
  unselected := up.unselect.sent
  bootstrap := up.bootstrap
  ready := up.select.ready
  selected := up.select.sent

/-- The phase of an IDLE that was sent. -/
def UpIdle.phase (idle : UpIdle) : IdlePhase :=
  if idle.doneSent then .done else if idle.gotPlus then .plus else .sent

/-- No IDLE is outstanding without its DONE. -/
def UpIdle.Free (idle : UpIdle) : Prop := idle.sent = false ∨ idle.doneSent = true

instance UpIdle.Free.decidable (idle : UpIdle) : Decidable idle.Free := inferInstanceAs (Decidable (_ ∨ _))

/-- A command that has the tag of its callback and is neither an IDLE, nor a DONE, nor an UNSELECT. -/
def UpCmd.Ordinary (cmd : UpCmd) (tag : UpTag) : Prop :=
  cmd.tag = some tag ∧ match cmd with
    | .idle _ | .idleDone | .unselect _ => False
    | _ => True

/-- The monitor knows what the `up_t` knows. -/
structure Disciplined (face : UpFace) (monitor : IdleMonitor) : Prop where
  awaited : monitor.awaited = face.cbs.map UpCb.tag
  blocked : monitor.blocked = face.want
  unselected : monitor.unselected = face.unselected
  absent : face.idle.sent = false → monitor.idle = none
  fresh : face.idle.sent = false → face.idle.gotPlus = false ∧ face.idle.doneSent = false
  idle : face.idle.sent = true → ∃ tag, monitor.idle = some (.up tag, face.idle.phase) ∧ tag ≤ face.tag ∧
    ∀ cb ∈ face.cbs ++ face.cmds.map Prod.snd, cb.tag = .up tag → cb.call = .idleDone
  calls : face.cbs.countP (fun cb => cb.call = .idleDone) = if face.idle.sent then 1 else 0
  matched : ∀ cb ∈ face.cbs, cb.call = .idleDone → ∀ idle, monitor.idle = some idle → idle.1 = cb.tag
  cmds : ∀ pair ∈ face.cmds, pair.1.Ordinary pair.2.tag ∧ pair.2.call ≠ .idleDone
  tags : ∀ cb ∈ face.cbs ++ face.cmds.map Prod.snd, ∀ tag, cb.tag = .up tag → tag ≤ face.tag
  bootstrap : face.bootstrap.needed = true → face.bootstrap.sent = false → face.idle.Free
  selected : face.idle.sent = true → face.ready = true ∧ face.selected = true

namespace Disciplined

variable {face : UpFace} {monitor : IdleMonitor}

section

variable (disciplined : Disciplined face monitor)

include disciplined

theorem finished (free : face.idle.Free) :
    (monitor.idle.all fun idle => idle.2 = .done) = true := by
  cases known : monitor.idle with
  | none => rfl
  | some found =>
    cases sent : face.idle.sent with
    | false =>
      rw [disciplined.absent sent] at known
      cases known
    | true =>
      obtain ⟨_, same, _⟩ := disciplined.idle sent
      have left : face.idle.doneSent = true := by
        rcases free with asleep | left
        · rw [sent] at asleep
          cases asleep
        · exact left
      rw [known, Option.some.injEq] at same
      subst same
      exact decide_eq_true (if_pos left)

theorem allows (free : face.idle.Free) (selected : face.unselected = false) {cmd : UpCmd}
    {tag : UpTag} (ordinary : cmd.Ordinary tag) :
    monitor.emit cmd = .ok { monitor with awaited := monitor.awaited ++ [tag] } := by
  obtain ⟨named, kind⟩ := ordinary
  have accepted : monitor.allows cmd = true := by
    unfold IdleMonitor.allows
    rw [disciplined.unselected, selected]
    cases cmd <;> first | exact kind.elim | exact disciplined.finished free
  unfold IdleMonitor.emit
  rw [if_pos accepted]
  unfold IdleMonitor.note
  cases cmd <;> first | exact kind.elim | (rw [named]; rfl)

theorem tags_added (call : UpCallback) :
    ∀ cb ∈ face.cbs ++ [⟨.up (face.tag + 1), call⟩] ++ face.cmds.map Prod.snd, ∀ tag,
      cb.tag = .up tag → tag ≤ face.tag + 1 := by
  intro cb mem tag same
  rw [append_assoc, mem_append, mem_append, mem_singleton] at mem
  rcases mem with old | rfl | waiting
  · exact Nat.le_succ_of_le (disciplined.tags cb (mem_append_left _ old) tag same)
  · cases same
    exact le_rfl
  · exact Nat.le_succ_of_le (disciplined.tags cb (mem_append_right _ waiting) tag same)

theorem send {call : UpCallback} (other : call ≠ .idleDone) :
    Disciplined { face with tag := face.tag + 1, cbs := face.cbs ++ [⟨.up (face.tag + 1), call⟩] }
      { monitor with awaited := monitor.awaited ++ [.up (face.tag + 1)] } where
  __ := disciplined
  awaited := by
    rw [disciplined.awaited, map_append]
    rfl
  idle sent := by
    obtain ⟨tag, known, bounded, own⟩ := disciplined.idle sent
    refine ⟨tag, known, Nat.le_succ_of_le bounded, ?_⟩
    intro cb mem same
    rw [append_assoc, mem_append, mem_append, mem_singleton] at mem
    rcases mem with old | rfl | waiting
    · exact own cb (mem_append_left _ old) same
    · cases same
      omega
    · exact own cb (mem_append_right _ waiting) same
  calls := by
    rw [countP_append, disciplined.calls]
    simp [other]
  matched := by
    intro cb mem idleCall
    rw [mem_append, mem_singleton] at mem
    rcases mem with old | rfl
    · exact disciplined.matched cb old idleCall
    · exact absurd idleCall other
  tags := disciplined.tags_added call

end

variable {cb : UpCb}

section

variable (disciplined : Disciplined face monitor)

include disciplined

/-- A command is enqueued for the relays. -/
theorem enqueue {tag : Nat} (bounded : face.tag ≤ tag) {cmd : UpCmd}
    (ordinary : cmd.Ordinary cb.tag) (other : cb.call ≠ .idleDone)
    (fresh : ∀ known, cb.tag = .up known → face.tag < known ∧ known ≤ tag) :
    Disciplined { face with tag, cmds := face.cmds ++ [(cmd, cb)] } monitor where
  __ := disciplined
  idle sent := by
    obtain ⟨idleTag, known, below, own⟩ := disciplined.idle sent
    refine ⟨idleTag, known, Nat.le_trans below bounded, ?_⟩
    intro found mem same
    rw [map_append, ← append_assoc, mem_append] at mem
    rcases mem with old | added
    · exact own found old same
    · rw [map_singleton, mem_singleton] at added
      subst added
      exact absurd (fresh idleTag same).1 (Nat.not_lt.mpr below)
  cmds := by
    intro pair mem
    rw [mem_append, mem_singleton] at mem
    rcases mem with old | rfl
    · exact disciplined.cmds pair old
    · exact ⟨ordinary, other⟩
  tags := by
    intro found mem known same
    rw [map_append, ← append_assoc, mem_append] at mem
    rcases mem with old | added
    · exact Nat.le_trans (disciplined.tags found old known same) bounded
    · rw [map_singleton, mem_singleton] at added
      subst added
      exact (fresh known same).2

/-- All the relays are sent. -/
theorem sendRelays (free : face.idle.Free) (selected : face.unselected = false) :
    ∃ next, monitor.emitAll (face.cmds.map Prod.fst) = .ok next ∧
      Disciplined { face with cbs := face.cbs ++ face.cmds.map Prod.snd, cmds := [] } next := by
  obtain ⟨cbs, cmds, tag, idle, want, unselected, bootstrap, ready, wasSelected⟩ := face
  induction cmds generalizing cbs monitor with
  | nil =>
    refine ⟨monitor, rfl, ?_⟩
    rw [map_nil, append_nil]
    exact disciplined
  | cons pair rest ih =>
    obtain ⟨cmd, cb⟩ := pair
    obtain ⟨ordinary, other⟩ := disciplined.cmds (cmd, cb) mem_cons_self
    have emitted := disciplined.allows free selected ordinary
    have moved : cbs ++ ((cmd, cb) :: rest).map Prod.snd = (cbs ++ [cb]) ++ rest.map Prod.snd := by
      rw [map_cons, append_assoc]
      rfl
    have first : Disciplined ⟨cbs ++ [cb], rest, tag, idle, want, unselected, bootstrap, ready,
        wasSelected⟩ { monitor with awaited := monitor.awaited ++ [cb.tag] } :=
      { disciplined with
        awaited := by
          rw [disciplined.awaited, map_append]
          rfl
        idle := by
          intro sent
          obtain ⟨idleTag, known, bounded, own⟩ := disciplined.idle sent
          exact ⟨idleTag, known, bounded, fun found mem => own found (moved ▸ mem)⟩
        calls := by
          rw [countP_append, disciplined.calls]
          simp [other]
        matched := by
          intro found mem idleCall
          rw [mem_append, mem_singleton] at mem
          rcases mem with old | rfl
          · exact disciplined.matched found old idleCall
          · exact absurd idleCall other
        cmds := fun pair mem => disciplined.cmds pair (.tail _ mem)
        tags := fun found mem => disciplined.tags found (moved ▸ mem) }
    obtain ⟨next, observed, follows⟩ := ih _ first free selected
    refine ⟨next, ?_, moved ▸ follows⟩
    unfold IdleMonitor.emitAll at observed ⊢
    rw [map_cons, foldlM_cons, emitted]
    exact observed

/-- An IDLE is sent when nothing is awaited. -/
theorem sendIdle (quiet : face.cbs = []) (asleep : face.idle.sent = false)
    (unblocked : face.want = false) (selected : face.unselected = false)
    (bootstrapped : face.bootstrap.needed = false) (ready : face.ready = true)
    (wasSelected : face.selected = true) (idle : UpIdle) (begun : idle.sent = true)
    (unanswered : idle.gotPlus = false) (notDone : idle.doneSent = false) :
    ∃ next, monitor.emit (.idle (face.tag + 1)) = .ok next ∧ Disciplined { face with
          tag := face.tag + 1
          cbs := face.cbs ++ [⟨.up (face.tag + 1), .idleDone⟩]
          idle } next := by
  have accepted : monitor.allows (.idle (face.tag + 1)) = true := by
    unfold IdleMonitor.allows
    rw [disciplined.unselected, selected, disciplined.absent asleep, disciplined.awaited, quiet,
      disciplined.blocked, unblocked]
    rfl
  refine ⟨_, if_pos accepted, ?_⟩
  have phase : idle.phase = .sent := by
    unfold UpIdle.phase
    rw [notDone, unanswered]
    rfl
  refine { disciplined with
      awaited := ?_
      absent := fun asleep => absurd (begun.symm.trans asleep) (by decide)
      fresh := fun asleep => absurd (begun.symm.trans asleep) (by decide)
      idle := ?_
      calls := ?_
      matched := ?_
      tags := disciplined.tags_added _
      bootstrap := fun needed => absurd (bootstrapped.symm.trans needed) (by decide)
      selected := fun _ => ⟨ready, wasSelected⟩ }
  · show monitor.awaited ++ [UpTag.up (face.tag + 1)] = _
    rw [disciplined.awaited, map_append]
    rfl
  · intro _
    refine ⟨face.tag + 1, ?_, le_rfl, ?_⟩
    · show some (UpTag.up (face.tag + 1), IdlePhase.sent) = some (_, idle.phase)
      rw [phase]
    · intro cb mem same
      rw [quiet, nil_append, mem_append, mem_singleton] at mem
      rcases mem with rfl | waiting
      · rfl
      · have below := disciplined.tags cb (mem_append_right _ waiting) _ same
        omega
  · show countP _ (face.cbs ++ _) = if idle.sent then 1 else 0
    rw [begun, quiet]
    rfl
  · intro cb mem _ found known
    rw [quiet, nil_append, mem_singleton] at mem
    rw [← Option.some.inj known, mem]

/-- The DONE is sent after the `+`. -/
theorem sendDone (selected : face.unselected = false) (begun : face.idle.sent = true)
    (answered : face.idle.gotPlus = true) (notDone : face.idle.doneSent = false) :
    ∃ next, monitor.emit .idleDone = .ok next ∧
      Disciplined { face with idle := { face.idle with doneSent := true } } next := by
  obtain ⟨tag, known, bounded, own⟩ := disciplined.idle begun
  have phase : face.idle.phase = .plus := by
    unfold UpIdle.phase
    rw [notDone, answered]
    rfl
  rw [phase] at known
  have accepted : monitor.allows .idleDone = true := by
    unfold IdleMonitor.allows
    rw [disciplined.unselected, selected, known]
    rfl
  refine ⟨_, if_pos accepted, ?_⟩
  refine { disciplined with
      awaited := ?_
      absent := fun asleep => absurd (begun.symm.trans asleep) (by decide)
      fresh := fun asleep => absurd (begun.symm.trans asleep) (by decide)
      idle := fun _ => ⟨tag, ?_, bounded, own⟩
      matched := ?_
      bootstrap := fun _ _ => .inr rfl }
  · show monitor.awaited ++ [] = _
    rw [append_nil]
    exact disciplined.awaited
  · show monitor.idle.map _ = _
    rw [known]
    rfl
  · intro cb mem idleCall idle present
    have same := disciplined.matched cb mem idleCall _ known
    have noted : monitor.idle.map (fun idle => (idle.1, IdlePhase.done)) = some idle := present
    rw [known] at noted
    rw [← Option.some.inj noted]
    exact same

theorem sendUnselect (free : face.idle.Free) (selected : face.unselected = false) :
    ∃ next, monitor.emit (.unselect (face.tag + 1)) = .ok next ∧ Disciplined { face with
          tag := face.tag + 1
          cbs := face.cbs ++ [⟨.up (face.tag + 1), .unselectDone⟩]
          unselected := true } next := by
  have accepted : monitor.allows (.unselect (face.tag + 1)) = true := by
    unfold IdleMonitor.allows
    rw [disciplined.unselected, selected]
    exact disciplined.finished free
  have sent := disciplined.send (show unselectDone ≠ .idleDone by decide)
  exact ⟨_, if_pos accepted, { sent with unselected := rfl }⟩

end

variable {rest : List UpCb}

theorem awaited_cons (disciplined : Disciplined face monitor) (awaited : face.cbs = cb :: rest) :
    monitor.awaited = cb.tag :: rest.map UpCb.tag := by
  rw [disciplined.awaited, awaited]
  rfl

theorem mem_of_rest (awaited : face.cbs = cb :: rest) :
    ∀ found ∈ rest ++ face.cmds.map Prod.snd, found ∈ face.cbs ++ face.cmds.map Prod.snd := by
  intro found mem
  rw [awaited]
  exact .tail _ mem

section

variable (disciplined : Disciplined face monitor)

include disciplined

/-- The first command that is awaited is answered, and it is not an IDLE. -/
theorem answerOther (awaited : face.cbs = cb :: rest) (other : cb.call ≠ .idleDone) :
    Disciplined { face with cbs := rest } (monitor.answer cb.tag) := by
  have named := disciplined.awaited_cons awaited
  have kept : ∀ cb' ∈ rest, cb' ∈ face.cbs :=
    fun found mem => awaited ▸ .tail _ mem
  have waiting := mem_of_rest awaited
  have untouched : monitor.answer cb.tag = { monitor with awaited := rest.map UpCb.tag } := by
    unfold IdleMonitor.answer
    rw [named, head?_cons, if_pos rfl, tail_cons]
    have same : monitor.idle.filter (fun idle => idle.1 ≠ cb.tag) = monitor.idle := by
      cases known : monitor.idle with
      | none => rfl
      | some found =>
        have differs : found.1 ≠ cb.tag := by
          intro same
          cases sent : face.idle.sent with
          | false =>
            rw [disciplined.absent sent] at known
            cases known
          | true =>
            obtain ⟨tag, outstanding, _, own⟩ := disciplined.idle sent
            rw [outstanding, Option.some.injEq] at known
            subst known
            exact other (own cb (awaited ▸ mem_cons_self) same.symm)
        exact if_pos (decide_eq_true differs)
    rw [same]
  rw [untouched]
  exact { disciplined with
      awaited := rfl
      idle := fun sent => by
        obtain ⟨tag, known, bounded, own⟩ := disciplined.idle sent
        exact ⟨tag, known, bounded, fun found mem => own found (waiting found mem)⟩
      calls := by
        have counted := disciplined.calls
        rw [awaited, countP_cons_of_neg (by simpa using other)] at counted
        exact counted
      matched := fun found mem => disciplined.matched found (kept found mem)
      tags := fun found mem => disciplined.tags found (waiting found mem) }

/-- The IDLE is answered. -/
theorem answerIdle (awaited : face.cbs = cb :: rest) (idleCall : cb.call = .idleDone) :
    Disciplined { face with cbs := rest, idle := {} } (monitor.answer cb.tag) := by
  have named := disciplined.awaited_cons awaited
  have sent : face.idle.sent = true := by
    cases sent : face.idle.sent with
    | true => rfl
    | false =>
      have counted := disciplined.calls
      rw [awaited, countP_cons_of_pos (by simpa using idleCall), sent] at counted
      cases counted
  have none : countP (fun cb => cb.call = .idleDone) rest = 0 := by
    have counted := disciplined.calls
    rw [awaited, countP_cons_of_pos (by simpa using idleCall), sent] at counted
    exact Nat.succ.inj counted
  have waiting := mem_of_rest awaited
  have cleared : monitor.answer cb.tag =
      { monitor with awaited := rest.map UpCb.tag, idle := Option.none } := by
    obtain ⟨tag, known, _⟩ := disciplined.idle sent
    have same := disciplined.matched cb (awaited ▸ mem_cons_self) idleCall _ known
    unfold IdleMonitor.answer
    rw [named, head?_cons, if_pos rfl, tail_cons, known]
    have dropped : (some (UpTag.up tag, face.idle.phase)).filter (fun idle => idle.1 ≠ cb.tag) =
        Option.none := if_neg (by simpa using same)
    rw [dropped]
  rw [cleared]
  exact { disciplined with
      awaited := rfl
      absent := fun _ => rfl
      fresh := fun _ => ⟨rfl, rfl⟩
      idle := fun begun => nomatch begun
      calls := none
      matched := fun _ _ _ _ present => nomatch present
      tags := fun found mem => disciplined.tags found (waiting found mem)
      bootstrap := fun _ _ => .inl rfl
      selected := fun begun => nomatch begun }

/-- The `+` has come. -/
theorem plus (begun : face.idle.sent = true) :
    Disciplined { face with idle := { face.idle with gotPlus := true } } { monitor with
        idle := monitor.idle.map fun idle => (idle.1, if idle.2 = .sent then .plus else idle.2) } where
  __ := disciplined
  absent asleep := absurd (begun.symm.trans asleep) (by decide)
  fresh asleep := absurd (begun.symm.trans asleep) (by decide)
  idle sent := by
    obtain ⟨tag, known, bounded, own⟩ := disciplined.idle sent
    refine ⟨tag, ?_, bounded, own⟩
    rw [known, Option.map_some]
    unfold UpIdle.phase
    cases face.idle.doneSent <;> cases face.idle.gotPlus <;> rfl
  matched cb mem idleCall idle present := by
    obtain ⟨found, known, rfl⟩ := Option.map_eq_some_iff.mp present
    exact disciplined.matched cb mem idleCall found known

end

end Disciplined

/-! ### The commands of a call -/

section Discipline

variable {M : Type} (host : UpImaildir M) {start : IdleMonitor} {world : UpWorld M}

/-- The commands so far were in place, and the monitor knows what the `up_t` knows. -/
def Obeys (start : IdleMonitor) (world : UpWorld M) : Prop :=
  ∃ monitor, start.emitAll world.out = .ok monitor ∧ Disciplined world.up.face monitor

/-- The commands before a failure were in place. -/
def Heard (start : IdleMonitor) (failure : UpFailure M) : Prop :=
  ∃ monitor, start.emitAll failure.2.out = .ok monitor

theorem Obeys.heard (obeys : Obeys start world) (fault : UpFault) : Heard start (fault, world) := by
  obtain ⟨monitor, observed, _⟩ := obeys
  exact ⟨monitor, observed⟩

theorem Obeys.fail (obeys : Obeys start world) {good : UpWorld M → Prop} (type : DerrType)
    (text : String) : Sat (world.fail type text) good (Heard start) :=
  obeys.heard _

/-- Some more commands are sent. -/
theorem Obeys.extend {monitor next : IdleMonitor} {cmds : List UpCmd} {up : Up}
    (observed : start.emitAll world.out = .ok monitor) (emitted : monitor.emitAll cmds = .ok next)
    (disciplined : Disciplined up.face next) :
    Obeys start { world with up, out := world.out ++ cmds } := by
  refine ⟨next, ?_, disciplined⟩
  show start.emitAll (world.out ++ cmds) = .ok next
  rw [IdleMonitor.emitAll_append, observed]
  exact emitted

/-- One more command is sent. -/
theorem Obeys.push {monitor next : IdleMonitor} {cmd : UpCmd} {up : Up}
    (observed : start.emitAll world.out = .ok monitor) (emitted : monitor.emit cmd = .ok next)
    (disciplined : Disciplined up.face next) :
    Obeys start { world with up, out := world.out ++ [cmd] } := by
  refine Obeys.extend observed ?_ disciplined
  unfold IdleMonitor.emitAll
  rw [foldlM_cons, emitted]
  rfl

/-- What the `up_t` does not show does not matter. -/
theorem Obeys.like (obeys : Obeys start world) {next : UpWorld M}
    (face : next.up.face = world.up.face) (out : next.out = world.out) : Obeys start next := by
  obtain ⟨monitor, observed, disciplined⟩ := obeys
  exact ⟨monitor, out ▸ observed, face ▸ disciplined⟩

theorem Obeys.sendCmd (obeys : Obeys start world) (free : world.up.idle.Free)
    (selected : world.up.unselect.sent = false) (cmd : Nat → UpCmd) (callback : UpCallback)
    (ordinary : ∀ tag, (cmd tag).Ordinary (.up tag)) (other : callback ≠ .idleDone) :
    Obeys start (world.sendCmd cmd callback) := by
  obtain ⟨monitor, observed, disciplined⟩ := obeys
  exact Obeys.push observed (disciplined.allows free selected (ordinary _)) (disciplined.send other)

/-- What the `imaildir_t` does to an `up_t` leaves the commands and the IDLE alone. -/
structure UpWorld.Aside (world next : UpWorld M) : Prop where
  out : next.out = world.out
  m : next.up.m = world.up.m
  unselect : next.up.unselect = world.up.unselect
  bootstrap : next.up.bootstrap = world.up.bootstrap
  idle : next.up.idle = world.up.idle
  sent : next.up.select.sent = world.up.select.sent
  cbs : next.up.cbs = world.up.cbs
  select : world.up.select.ready = true → next.up.select = world.up.select

theorem UpWorld.Aside.refl (world : UpWorld M) : world.Aside world :=
  ⟨rfl, rfl, rfl, rfl, rfl, rfl, rfl, fun _ => rfl⟩

theorem UpWorld.Aside.trans {first second third : UpWorld M} (left : first.Aside second)
    (right : second.Aside third) : first.Aside third where
  out := right.out.trans left.out
  m := right.m.trans left.m
  unselect := right.unselect.trans left.unselect
  bootstrap := right.bootstrap.trans left.bootstrap
  idle := right.idle.trans left.idle
  sent := right.sent.trans left.sent
  cbs := right.cbs.trans left.cbs
  select ready := by
    have same := left.select ready
    rw [← same] at ready ⊢
    exact right.select ready

theorem UpWorld.call_sat (obeys : Obeys start world) (upCall : UpCall) :
    Sat (world.call upCall) (fun next => Obeys start next ∧ world.Aside next) (Heard start) := by
  obtain ⟨monitor, observed, disciplined⟩ := obeys
  cases upCall with
  | select uidvldUp himodseqUp examine =>
    unfold UpWorld.call upImaildirSelect
    cases ready : world.up.select.ready with
    | false =>
      refine ⟨⟨monitor, observed, ?_⟩, rfl, rfl, rfl, rfl, rfl, rfl, rfl, fun begun => ?_⟩
      · exact { disciplined with selected := fun sent => ⟨rfl, (disciplined.selected sent).2⟩ }
      · rw [ready] at begun
        cases begun
    | true =>
      cases world.up.synced with
      | false => exact ⟨monitor, observed⟩
      | true =>
        cases world.up.reselect.needed with
        | true => exact ⟨monitor, observed⟩
        | false =>
          exact ⟨⟨monitor, observed, disciplined⟩, rfl, rfl, rfl, rfl, rfl, rfl, rfl, fun _ => rfl⟩
  | relayCmd tag cmd =>
    unfold UpWorld.call upImaildirRelayCmd
    cases world.up.reselect.needed with
    | true => exact ⟨monitor, observed⟩
    | false =>
      refine ⟨⟨monitor, observed, ?_⟩, rfl, rfl, rfl, rfl, rfl, rfl, rfl, fun _ => rfl⟩
      refine disciplined.enqueue (le_rfl) ⟨rfl, trivial⟩ ?_ ?_
      · exact noConfusion
      · intro known same
        cases same
  | haveLocalFile uid resync =>
    cases resync <;>
      exact ⟨⟨monitor, observed, disciplined⟩, rfl, rfl, rfl, rfl, rfl, rfl, rfl, fun _ => rfl⟩
  | holdEnd => exact ⟨⟨monitor, observed, disciplined⟩, UpWorld.Aside.refl world⟩

theorem UpWorld.calls_sat (obeys : Obeys start world) (calls : List UpCall) :
    Sat (calls.foldlM UpWorld.call world)
      (fun next => Obeys start next ∧ world.Aside next) (Heard start) := by
  induction calls generalizing world with
  | nil => exact ⟨obeys, UpWorld.Aside.refl world⟩
  | cons upCall rest ih =>
    rw [foldlM_cons]
    refine Sat.bind (UpWorld.call_sat obeys upCall) ?_
    rintro next ⟨follows, aside⟩
    exact (ih follows).mono fun last ⟨last_obeys, onwards⟩ =>
      ⟨last_obeys, aside.trans onwards⟩

theorem UpWorld.take_sat (obeys : Obeys start world) (reply : UpReply M) :
    Sat (world.take reply) (fun next => Obeys start next ∧ world.Aside next) (Heard start) := by
  have begun : Obeys start { world with imaildir := reply.imaildir } := obeys
  unfold UpWorld.take
  refine Sat.bind (UpWorld.calls_sat begun reply.calls) ?_
  rintro next ⟨follows, aside⟩
  cases reply.error with
  | none => exact ⟨follows, { aside with }⟩
  | some error => exact follows.heard _

/-! ### The state machine -/

/-- The world after `need_done`: only the IDLE and the commands may have changed. -/
def UpWorld.withIdle (world : UpWorld M) (idle : UpIdle) (out : List UpCmd) : UpWorld M :=
  { world with up := { world.up with idle }, out }

theorem UpWorld.needDone_sat (obeys : Obeys start world)
    (selected : world.up.unselect.sent = false) :
    Sat world.needDone
      (fun answer => ∃ idle out, answer.1 = world.withIdle idle out ∧ Obeys start answer.1 ∧
        (answer.2 = true → idle.Free)) (Heard start) := by
  unfold UpWorld.needDone
  have unchanged : world = world.withIdle world.up.idle world.out := rfl
  cases sent : world.up.idle.sent with
  | false => exact ⟨_, _, unchanged, obeys, fun _ => .inl sent⟩
  | true =>
    cases gotPlus : world.up.idle.gotPlus with
    | false => exact ⟨_, _, unchanged, obeys, fun ok => nomatch ok⟩
    | true =>
      cases doneSent : world.up.idle.doneSent with
      | true => exact ⟨_, _, unchanged, obeys, fun _ => .inr doneSent⟩
      | false =>
        obtain ⟨monitor, observed, disciplined⟩ := obeys
        obtain ⟨next, emitted, follows⟩ :=
          disciplined.sendDone selected sent gotPlus doneSent
        have pushed : Obeys start (world.withIdle { world.up.idle with doneSent := true }
            (world.out ++ [.idleDone])) := Obeys.push observed emitted follows
        have outcome : UpWorld.sendDone (world.withIdle { world.up.idle with doneSent := true }
            world.out) =
              .ok (world.withIdle { world.up.idle with doneSent := true }
                (world.out ++ [.idleDone])) := by
          unfold UpWorld.sendDone UpWorld.withIdle
          rw [sent, gotPlus]
          rfl
        have done : Sat
            (UpWorld.sendDone (world.withIdle { world.up.idle with doneSent := true } world.out))
            (fun next => next = world.withIdle { world.up.idle with doneSent := true }
              (world.out ++ [.idleDone])) (Heard start) := by
          rw [outcome]
          exact rfl
        refine Sat.bind done ?_
        rintro _ rfl
        exact ⟨_, _, rfl, pushed, fun _ => .inr rfl⟩

/-- A step that needs a DONE first. -/
theorem UpWorld.whenDone_sat (obeys : Obeys start world)
    (selected : world.up.unselect.sent = false) {good : UpWorld M → Prop}
    {step : UpWorld M → Except (UpFailure M) (UpWorld M)}
    (waits : ∀ idle out, Obeys start (world.withIdle idle out) → good (world.withIdle idle out))
    (steps : ∀ idle out, Obeys start (world.withIdle idle out) → idle.Free →
      Sat (step (world.withIdle idle out)) good (Heard start)) :
    Sat (world.whenDone step) good (Heard start) := by
  unfold UpWorld.whenDone
  refine Sat.bind (UpWorld.needDone_sat obeys selected) ?_
  rintro ⟨next, ok⟩ ⟨idle, out, same, follows, free⟩
  cases same
  cases ok with
  | true => exact steps idle out follows (free rfl)
  | false => exact waits idle out follows

/-- The parallelizable commands are possible. -/
structure Underway (start : IdleMonitor) (world : UpWorld M) : Prop where
  obeys : Obeys start world
  unselected : world.up.unselect.sent = false
  bootstrap : world.up.bootstrap.needed = false
  ready : world.up.select.ready = true
  selected : world.up.select.sent = true

section

variable (underway : Underway start world)

include underway

/-- What the `up_t` does not show does not matter. -/
theorem Underway.like {next : UpWorld M} (face : next.up.face = world.up.face)
    (out : next.out = world.out) : Underway start next where
  obeys := underway.obeys.like face out
  unselected := (congrArg UpFace.unselected face).trans underway.unselected
  bootstrap := (congrArg (fun face => face.bootstrap.needed) face).trans underway.bootstrap
  ready := (congrArg UpFace.ready face).trans underway.ready
  selected := (congrArg UpFace.selected face).trans underway.selected

theorem Underway.withIdle {idle : UpIdle} {out : List UpCmd}
    (obeys : Obeys start (world.withIdle idle out)) : Underway start (world.withIdle idle out) :=
  ⟨obeys, underway.unselected, underway.bootstrap, underway.ready, underway.selected⟩

/-- A step that needs a DONE first, among the parallelizable commands. -/
theorem Underway.whenDone {step : UpWorld M → Except (UpFailure M) (UpWorld M)}
    (steps : ∀ idle out, Underway start (world.withIdle idle out) → idle.Free →
      Sat (step (world.withIdle idle out)) (Underway start) (Heard start)) :
    Sat (world.whenDone step) (Underway start) (Heard start) :=
  UpWorld.whenDone_sat underway.obeys underway.unselected (fun _ _ obeys => underway.withIdle obeys)
    (fun idle out obeys free => steps idle out (underway.withIdle obeys) free)

theorem Underway.sendCmd (free : world.up.idle.Free) (cmd : Nat → UpCmd) (callback : UpCallback)
    (ordinary : ∀ tag, (cmd tag).Ordinary (.up tag)) (other : callback ≠ .idleDone) :
    Underway start (world.sendCmd cmd callback) :=
  ⟨underway.obeys.sendCmd free underway.unselected cmd callback ordinary other, underway.unselected,
    underway.bootstrap, underway.ready, underway.selected⟩

theorem Underway.take (reply : UpReply M) :
    Sat (world.take reply) (Underway start) (Heard start) := by
  refine (UpWorld.take_sat underway.obeys reply).mono fun next ⟨obeys, aside⟩ => ?_
  refine ⟨obeys, ?_, ?_, ?_, ?_⟩
  · rw [aside.unselect, underway.unselected]
  · rw [aside.bootstrap, underway.bootstrap]
  · rw [aside.select underway.ready, underway.ready]
  · rw [aside.sent, underway.selected]

theorem Underway.advanceReselect : Underway start world.advanceReselect := by
  unfold UpWorld.advanceReselect
  by_cases due : (world.up.reselect.needed && !world.up.reselect.enqueued) = true
  · rw [if_pos due]
    obtain ⟨⟨monitor, observed, disciplined⟩, unselected, bootstrap, ready, selected⟩ := underway
    refine ⟨⟨monitor, observed, ?_⟩, unselected, bootstrap, ready, selected⟩
    refine disciplined.enqueue (Nat.le_succ _) ⟨rfl, trivial⟩ noConfusion ?_
    intro known same
    cases same
    exact ⟨Nat.lt_succ_self _, le_rfl⟩
  · rw [if_neg due]
    exact underway

theorem Underway.advanceDetection : Sat world.advanceDetection (Underway start) (Heard start) := by
  unfold UpWorld.advanceDetection
  refine Sat.ite (fun _ => ?_) fun _ => ?_
  · exact underway
  · refine Sat.ite (fun _ => ?_) fun idle => ?_
    · exact underway
    · refine underway.whenDone fun idle out follows free => ?_
      have sent := follows.sendCmd free (fun tag => .detectionFetch tag (max 1 world.up.detect.chgsince)) .detectionDone
        (fun _ => ⟨rfl, trivial⟩) noConfusion
      exact sent.like rfl rfl

theorem Underway.sendFetches (free : world.up.idle.Free) (rounds : Nat) :
    Underway start (world.sendFetches rounds) := by
  induction rounds generalizing world with
  | zero => exact underway
  | succ rounds ih =>
    unfold UpWorld.sendFetches
    by_cases more : world.up.fetch.inFlight < UpWorld.fetchParallelism ∧ world.up.fetch.uidsUp ≠ []
    · rw [if_pos more]
      refine ih ?_ free
      have popped : Underway start { world with up := { world.up with
        fetch := { world.up.fetch with
          uidsUp := world.up.fetch.uidsUp.drop (1 + UpWorld.fetchChunkSize) } } } :=
        underway.like rfl rfl
      have sent := popped.sendCmd free
        (.fetch · (world.up.fetch.uidsUp.take (1 + UpWorld.fetchChunkSize))) .fetchDone
        (fun _ => ⟨rfl, trivial⟩) noConfusion
      exact sent.like rfl rfl
    · rw [if_neg more]
      exact underway

theorem Underway.advanceFetches :
    Sat (world.advanceFetches host) (Underway start) (Heard start) := by
  unfold UpWorld.advanceFetches
  refine Sat.ite (fun _ => ?_) fun _ => ?_
  · exact underway
  · cases host.allowDownload world.imaildir with
    | false => exact underway
    | true =>
      rw [if_neg (by decide)]
      refine underway.whenDone fun idle out follows free => ?_
      exact follows.sendFetches free world.up.fetch.uidsUp.length

end

theorem UpWorld.advanceResync_idle (world : UpWorld M) :
    world.advanceResync.up.idle = world.up.idle := by
  unfold UpWorld.advanceResync
  by_cases due : (world.up.relay.resync.needed && !world.up.relay.resync.inflight) = true
  · rw [if_pos due]
    rfl
  · rw [if_neg due]

section

variable (underway : Underway start world)

include underway

theorem Underway.advanceResync (free : world.up.idle.Free) :
    Underway start world.advanceResync := by
  unfold UpWorld.advanceResync
  by_cases due : (world.up.relay.resync.needed && !world.up.relay.resync.inflight) = true
  · rw [if_pos due]
    have begun : Underway start { world with up := { world.up with
        relay := { world.up.relay with resync := { needed := false, inflight := true } } } } :=
      underway.like rfl rfl
    exact begun.sendCmd free .noop .noopDone (fun _ => ⟨rfl, trivial⟩) noConfusion
  · rw [if_neg due]
    exact underway

theorem Underway.sendRelays (free : world.up.idle.Free) : Underway start world.sendRelays := by
  obtain ⟨⟨monitor, observed, disciplined⟩, unselected, bootstrap, ready, selected⟩ := underway
  obtain ⟨next, emitted, follows⟩ := disciplined.sendRelays free unselected
  exact ⟨Obeys.extend observed emitted follows, unselected, bootstrap, ready, selected⟩

theorem Underway.advanceRelays : Sat world.advanceRelays (Underway start) (Heard start) := by
  unfold UpWorld.advanceRelays
  refine Sat.ite (fun _ => ?_) fun _ => ?_
  · exact underway
  · refine underway.whenDone fun idle out follows free => ?_
    have resynced := follows.advanceResync free
    have still : (world.withIdle idle out).advanceResync.up.idle.Free :=
      (UpWorld.advanceResync_idle (world.withIdle idle out)).symm ▸ free
    by_cases inflight : (world.withIdle idle out).advanceResync.up.relay.resync.inflight = true
    · show Sat (if _ then _ else _) _ _
      rw [if_pos inflight]
      exact resynced
    · show Sat (if _ then _ else _) _ _
      rw [if_neg inflight]
      exact resynced.sendRelays still

theorem Underway.checkSynced : Sat (world.checkSynced host) (Underway start) (Heard start) := by
  unfold UpWorld.checkSynced
  by_cases due :
    (!world.up.synced && world.up.fetch.uidsUp = [] && world.up.fetch.inFlight = 0) = true
  · rw [if_pos due]
    have noted : Underway start { world with up := { world.up with synced := true } } :=
      underway.like rfl rfl
    exact noted.take _
  · rw [if_neg due]
    exact underway

theorem Underway.advanceIdle : Underway start world.advanceIdle := by
  unfold UpWorld.advanceIdle
  cases world.up.synced with
  | false => exact underway
  | true =>
    by_cases awaiting : world.up.cbs ≠ []
    · rw [if_neg (by decide), if_pos awaiting]
      exact underway
    · rw [if_neg (by decide), if_neg awaiting]
      cases asleep : world.up.idle.sent with
      | true => exact underway
      | false =>
        cases unblocked : world.up.idleBlock.want with
        | true => exact underway
        | false =>
          obtain ⟨⟨monitor, observed, disciplined⟩, unselected, bootstrap, ready, selected⟩ :=
            underway
          obtain ⟨next, emitted, follows⟩ := disciplined.sendIdle (not_not.mp awaiting) asleep
            unblocked unselected bootstrap ready selected { world.up.idle with sent := true } rfl
            (disciplined.fresh asleep).1 (disciplined.fresh asleep).2
          exact ⟨Obeys.push observed emitted follows, unselected, bootstrap, ready, selected⟩

theorem Underway.advanceParallel :
    Sat (world.advanceParallel host) (Underway start) (Heard start) := by
  unfold UpWorld.advanceParallel
  refine Sat.bind underway.advanceReselect.advanceDetection fun _ detected => ?_
  refine Sat.bind (detected.advanceFetches host) fun _ fetched => ?_
  refine Sat.bind fetched.advanceRelays fun _ relayed => ?_
  refine Sat.bind (relayed.checkSynced host) fun _ synced => ?_
  exact synced.advanceIdle

theorem Underway.advanceStore : Sat world.advanceStore (Underway start) (Heard start) := by
  unfold UpWorld.advanceStore
  cases world.up.deletions.storeSent with
  | true => exact underway
  | false =>
    rw [if_pos (by decide)]
    refine underway.whenDone fun idle out follows free => ?_
    have noted : Underway start { world.withIdle idle out with up := {
        (world.withIdle idle out).up with
          deletions := { world.up.deletions with storeSent := true } } } := follows.like rfl rfl
    exact noted.sendCmd free (.deletions · world.up.deletions.uidsUp) .deletionsDone
      (fun _ => ⟨rfl, trivial⟩) noConfusion

theorem Underway.advanceExpunge : Sat world.advanceExpunge (Underway start) (Heard start) := by
  unfold UpWorld.advanceExpunge
  cases world.up.deletions.expungeSent with
  | true => exact underway
  | false =>
    rw [if_pos (by decide)]
    refine underway.whenDone fun idle out follows free => ?_
    have noted : Underway start { world.withIdle idle out with up := {
        (world.withIdle idle out).up with
          deletions := { world.up.deletions with expungeSent := true } } } := follows.like rfl rfl
    exact noted.sendCmd free (.expunge · world.up.deletions.uidsUp) .expungeDone
      (fun _ => ⟨rfl, trivial⟩) noConfusion

theorem Underway.advanceDeletions :
    Sat (world.advanceDeletions host) (Underway start) (Heard start) := by
  unfold UpWorld.advanceDeletions
  refine Sat.ite (fun _ => ?_) fun _ => ?_
  · exact underway.advanceParallel host
  · refine Sat.bind underway.advanceStore fun stored follows => ?_
    cases stored.up.deletions.storeDone with
    | false => exact follows
    | true =>
      rw [if_neg (by decide)]
      refine Sat.bind follows.advanceExpunge fun expunged last => ?_
      cases expunged.up.deletions.expungeDone with
      | false => exact last
      | true => exact last.advanceParallel host

end

section

variable (obeys : Obeys start world)

include obeys

theorem UpWorld.advanceBootstrap_obeys (unselected : world.up.unselect.sent = false)
    (needed : world.up.bootstrap.needed = true) : Obeys start world.advanceBootstrap := by
  unfold UpWorld.advanceBootstrap
  cases sent : world.up.bootstrap.sent with
  | true => exact obeys
  | false =>
    rw [if_pos (by decide)]
    obtain ⟨monitor, observed, disciplined⟩ := obeys
    have free := disciplined.bootstrap needed sent
    have noted : Obeys start { world with
        up := { world.up with bootstrap := { world.up.bootstrap with sent := true } } } := by
      refine ⟨monitor, observed, ?_⟩
      exact { disciplined with bootstrap := fun _ pending => nomatch pending }
    exact noted.sendCmd free unselected (fun tag => .detectionFetch tag (max 1 1)) .detectionDone
      (fun _ => ⟨rfl, trivial⟩) noConfusion

theorem UpWorld.advanceSelected_sat (unselected : world.up.unselect.sent = false)
    (ready : world.up.select.ready = true) (selected : world.up.select.sent = true) :
    Sat (world.advanceSelected host) (Obeys start) (Heard start) := by
  unfold UpWorld.advanceSelected
  cases world.up.select.done with
  | false => exact obeys
  | true =>
    rw [if_neg (by decide)]
    cases needed : world.up.bootstrap.needed with
    | true => exact world.advanceBootstrap_obeys obeys unselected needed
    | false =>
      have underway : Underway start world := ⟨obeys, unselected, needed, ready, selected⟩
      exact (underway.advanceDeletions host).mono fun _ last => last.obeys

/-- The initial SELECT is sent before any IDLE. -/
theorem UpWorld.initialSelect_obeys (unselected : world.up.unselect.sent = false)
    (first : world.up.select.sent = false) : Obeys start (world.initialSelect host) := by
  obtain ⟨monitor, observed, disciplined⟩ := obeys
  have asleep : world.up.idle.sent = false := by
    cases asleep : world.up.idle.sent with
    | false => rfl
    | true => exact absurd (first.symm.trans (disciplined.selected asleep).2) (by decide)
  have noted : Obeys start { world with
      up := { world.up with select := { world.up.select with sent := true } } } := by
    refine ⟨monitor, observed, ?_⟩
    exact { disciplined with selected := fun sent => ⟨(disciplined.selected sent).1, rfl⟩ }
  have sent := noted.sendCmd (.inl asleep) unselected
    (fun tag => .select tag
      (if host.getUnpushedExpunges world.imaildir = [] then world.up.select.examine else false)
      (UpWorld.qresync world.up.select.uidvldUp world.up.select.himodseqUp))
    .selectDone (fun _ => ⟨rfl, trivial⟩) noConfusion
  exact sent.like rfl rfl

theorem UpWorld.advanceSelect_sat (unselected : world.up.unselect.sent = false) :
    Sat (world.advanceSelect host) (Obeys start) (Heard start) := by
  unfold UpWorld.advanceSelect
  cases ready : world.up.select.ready with
  | false => exact obeys
  | true =>
    rw [if_neg (by decide)]
    cases sent : world.up.select.sent with
    | true => exact world.advanceSelected_sat host obeys unselected ready sent
    | false =>
      exact (world.initialSelect host).advanceSelected_sat host
        (world.initialSelect_obeys host obeys unselected sent) unselected ready rfl

theorem UpWorld.advanceIdleBlock_sat (unselected : world.up.unselect.sent = false) :
    Sat world.advanceIdleBlock
      (fun next => Obeys start next ∧ next.up.unselect.sent = false) (Heard start) := by
  unfold UpWorld.advanceIdleBlock
  refine Sat.ite (fun _ => ?_) fun _ => ?_
  · refine UpWorld.whenDone_sat obeys unselected ?_ ?_
    · exact fun idle out follows => ⟨follows, unselected⟩
    · exact fun idle out follows free => ⟨follows.like rfl rfl, unselected⟩
  · exact ⟨obeys, unselected⟩

theorem UpWorld.upAdvanceState_sat :
    Sat (world.upAdvanceState host) (Obeys start) (Heard start) := by
  unfold UpWorld.upAdvanceState
  cases world.up.done with
  | true => exact obeys
  | false =>
    rw [if_neg (by decide)]
    unfold UpWorld.healthcheck
    cases world.up.m with
    | false => exact obeys.heard _
    | true =>
      show Sat (if _ then _ else _) _ _
      cases unselected : world.up.unselect.sent with
      | true =>
        rw [if_neg (by simp)]
        exact obeys
      | false =>
        cases world.up.unselect.needed with
        | true =>
          rw [if_pos (by decide)]
          refine UpWorld.whenDone_sat obeys unselected (fun _ _ follows => follows) ?_
          rintro idle out ⟨monitor, observed, disciplined⟩ free
          obtain ⟨next, emitted, follows⟩ := disciplined.sendUnselect free unselected
          exact Obeys.push observed emitted follows
        | false =>
          rw [if_neg (by decide), if_neg (by decide)]
          refine Sat.bind (world.advanceIdleBlock_sat obeys unselected) ?_
          rintro next ⟨follows, still⟩
          exact next.advanceSelect_sat host follows still

/-! ### Callbacks and responses -/

theorem UpWorld.take_obeys (reply : UpReply M) :
    Sat (world.take reply) (Obeys start) (Heard start) :=
  (UpWorld.take_sat obeys reply).mono fun _ both => both.1

theorem UpWorld.deleteMsgs_sat (uids : List Nat) :
    Sat (world.deleteMsgs host uids) (Obeys start) (Heard start) := by
  induction uids generalizing world with
  | nil => exact obeys
  | cons uid rest ih =>
    exact Sat.bind (UpWorld.take_obeys obeys _) fun _ follows => ih follows

/-- Only the callback of an IDLE changes what is known of it. -/
theorem UpWorld.callback_sat {cb : UpCb} (other : cb.call ≠ .idleDone) (st : UpStResp) :
    Sat (world.callback host cb st) (Obeys start) (Heard start) := by
  unfold UpWorld.callback
  cases call : cb.call with
  | unselectDone =>
    show Sat (world.unselectDone st) _ _
    unfold UpWorld.unselectDone
    refine Sat.ite (fun _ => ?_) fun _ => ?_
    · exact obeys.fail _ _
    · exact obeys.like rfl rfl
  | selectDone =>
    refine Sat.bind (UpWorld.take_obeys obeys _) fun next follows => ?_
    refine Sat.ite (fun _ => ?_) fun _ => ?_
    · exact follows.like rfl rfl
    · exact follows.like rfl rfl
  | reselectDone =>
    refine Sat.bind (UpWorld.take_obeys obeys _) fun next follows => ?_
    refine Sat.ite (fun _ => ?_) fun _ => ?_
    · exact follows.fail _ _
    · have ignored : Obeys start next.ignoreDetections := follows.like rfl rfl
      refine Sat.bind (UpWorld.take_obeys ignored _) fun last synced => ?_
      exact synced.like rfl rfl
  | expungeDone =>
    show Sat (world.expungeDone host st) _ _
    unfold UpWorld.expungeDone
    refine Sat.ite (fun _ => ?_) fun _ => ?_
    · exact obeys.fail _ _
    · exact Sat.bind (world.deleteMsgs_sat host obeys _) fun _ follows =>
        follows.like rfl rfl
  | deletionsDone =>
    show Sat (world.deletionsDone st) _ _
    unfold UpWorld.deletionsDone
    refine Sat.ite (fun _ => ?_) fun _ => ?_
    · exact obeys.fail _ _
    · exact obeys.like rfl rfl
  | detectionDone =>
    show Sat (world.detectionDone st) _ _
    unfold UpWorld.detectionDone
    refine Sat.ite (fun _ => ?_) fun _ => ?_
    · exact obeys.fail _ _
    · refine Sat.ite (fun needed => ?_) fun _ => ?_
      · obtain ⟨monitor, observed, disciplined⟩ := obeys
        refine ⟨monitor, observed, ?_⟩
        exact { disciplined with bootstrap := fun needed => nomatch needed }
      · exact obeys.like rfl rfl
  | fetchDone =>
    show Sat (world.fetchDone st) _ _
    unfold UpWorld.fetchDone
    have counted : Obeys start { world with up := { world.up with
        fetch := { world.up.fetch with inFlight := world.up.fetch.inFlight - 1 } } } :=
      obeys.like rfl rfl
    refine Sat.ite (fun _ => ?_) fun _ => ?_
    · exact counted.fail _ _
    · exact counted
  | idleDone => exact absurd call other
  | noopDone =>
    show Sat (world.noopDone st) _ _
    unfold UpWorld.noopDone
    refine Sat.ite (fun _ => ?_) fun _ => ?_
    · exact obeys.fail _ _
    · exact obeys.like rfl rfl
  | relayCmdDone => exact UpWorld.take_obeys obeys _

theorem UpWorld.maybeBreakIdle_sat :
    Sat (world.maybeBreakIdle host) (Obeys start) (Heard start) := by
  unfold UpWorld.maybeBreakIdle
  refine Sat.ite (fun _ => ?_) fun _ => ?_
  · exact obeys
  · refine Sat.ite (fun _ => ?_) fun _ => ?_
    · exact obeys
    · exact world.upAdvanceState_sat host obeys

theorem UpWorld.fetchRespRest_sat (fetch : Box.FetchResp) :
    Sat (world.fetchRespRest host fetch) (Obeys start) (Heard start) := by
  have content : Sat (world.fetchRespContent host fetch) (Obeys start) (Heard start) := by
    unfold UpWorld.fetchRespContent
    refine Sat.ite (fun _ => ?_) fun _ => ?_
    · exact UpWorld.take_obeys obeys _
    · exact obeys
  refine Sat.bind content fun next follows => ?_
  by_cases observed : 0 < fetch.modseq
  · rw [if_pos observed]
    exact follows.like rfl rfl
  · rw [if_neg observed]
    exact follows

theorem UpWorld.newFetchResp_sat (fetch : Box.FetchResp) :
    Sat (world.newFetchResp host fetch) (Obeys start) (Heard start) := by
  refine Sat.bind (UpWorld.take_obeys obeys _) fun next follows => ?_
  cases fetch.body.isSome with
  | true => exact next.maybeBreakIdle_sat host follows
  | false => exact UpWorld.maybeBreakIdle_sat host (follows.like rfl rfl)

theorem UpWorld.knownFetchResp_sat (fetch : Box.FetchResp) :
    Sat (world.knownFetchResp host fetch) (Obeys start) (Heard start) := by
  unfold UpWorld.knownFetchResp
  cases fetch.flags with
  | none => exact obeys
  | some flags => exact UpWorld.take_obeys obeys _

theorem UpWorld.healthcheck_sat :
    Sat world.healthcheck (fun next => next = world) (Heard start) := by
  unfold UpWorld.healthcheck
  cases world.up.m with
  | true => exact rfl
  | false => exact obeys.fail _ _

theorem UpWorld.upFetchResp_sat (fetch : Box.FetchResp) :
    Sat (world.upFetchResp host fetch) (Obeys start) (Heard start) := by
  refine Sat.bind (UpWorld.healthcheck_sat obeys) ?_
  rintro checked rfl
  refine Sat.ite (fun _ => ?_) fun _ => ?_
  · exact obeys
  · have found : Sat (checked.newFetchResp host fetch >>= fun next =>
        next.fetchRespRest host fetch) (Obeys start) (Heard start) :=
      Sat.bind (checked.newFetchResp_sat host obeys fetch) fun next follows =>
        next.fetchRespRest_sat host follows fetch
    have known : Sat (checked.knownFetchResp host fetch >>= fun next =>
        next.fetchRespRest host fetch) (Obeys start) (Heard start) :=
      Sat.bind (checked.knownFetchResp_sat host obeys fetch) fun next follows =>
        next.fetchRespRest_sat host follows fetch
    cases host.lookupMsg checked.imaildir fetch.uid with
    | mk state expunged =>
      cases expunged with
      | true => exact obeys
      | false =>
        cases state with
        | none => exact found
        | some state =>
          cases state with
          | not4me => exact obeys
          | unfilled => exact known
          | filled => exact known
          | expunged => exact known

theorem UpWorld.upVanishedResp_sat (uids : List Nat) :
    Sat (world.upVanishedResp host uids) (Obeys start) (Heard start) := by
  refine Sat.bind (UpWorld.healthcheck_sat obeys) ?_
  rintro checked rfl
  exact checked.deleteMsgs_sat host obeys uids

theorem UpWorld.upExistsResp_sat : Sat (world.upExistsResp host) (Obeys start) (Heard start) := by
  refine Sat.bind (UpWorld.healthcheck_sat obeys) ?_
  rintro checked rfl
  refine Sat.ite (fun _ => ?_) fun _ => ?_
  · exact obeys.like rfl rfl
  · exact UpWorld.maybeBreakIdle_sat host (obeys.like rfl rfl)

theorem UpWorld.upUnselect_sat : Sat (world.upUnselect host) (Obeys start) (Heard start) := by
  refine Sat.bind (UpWorld.healthcheck_sat obeys) ?_
  rintro checked rfl
  refine Sat.ite (fun _ => ?_) fun _ => ?_
  · exact obeys.like rfl rfl
  · exact UpWorld.upAdvanceState_sat host (obeys.like rfl rfl)

theorem UpWorld.postCmdDone_sat (code : Option StCode) :
    Sat (world.postCmdDone host code) (Obeys start) (Heard start) := by
  have observed : Obeys start (world.observeCode code) := by
    cases code with
    | none => exact obeys
    | some code => cases code <;> exact obeys.like rfl rfl
  unfold UpWorld.postCmdDone
  show Sat (if _ then _ else _) _ _
  refine Sat.ite (fun _ => ?_) fun _ => ?_
  · exact observed
  · refine Sat.ite (fun _ => ?_) fun _ => ?_
    · exact observed
    · cases (world.observeCode code).up.m with
      | false => exact observed
      | true =>
        rw [if_neg (by decide)]
        exact Sat.bind (UpWorld.take_obeys observed _) fun _ follows => follows.like rfl rfl

/-- A UIDVALIDITY that is not the known one makes a bootstrap needed; without an open IDLE it does
no harm. -/
theorem UpWorld.untaggedOk_sat (code : Option StCode)
    (calm : ∀ uidvld, code = some (.uidvld uidvld) →
      uidvld = world.up.select.uidvldUp ∨ world.up.idle.Free) :
    Sat (world.untaggedOk host code) (Obeys start) (Heard start) := by
  cases code with
  | none => exact obeys
  | some code =>
    cases code with
    | readOnly => exact obeys.fail _ _
    | nomodseq => exact obeys.fail _ _
    | himodseq himodseq => exact obeys.like rfl rfl
    | closed => exact obeys.like rfl rfl
    | other => exact obeys
    | uidvld uidvld =>
      have ready : world.up.idle.Free ∨ world.up.select.ready = true := by
        obtain ⟨monitor, observed, disciplined⟩ := obeys
        cases sent : world.up.idle.sent with
        | false => exact .inl (.inl sent)
        | true => exact .inr (disciplined.selected sent).1
      refine Sat.bind (UpWorld.take_sat obeys _) ?_
      rintro next ⟨follows, aside⟩
      refine Sat.ite (fun differs => ?_) fun _ => ?_
      · have free : next.up.idle.Free := by
          rw [aside.idle]
          rcases ready with free | ready
          · exact free
          · rcases calm uidvld rfl with same | free
            · rw [aside.select ready] at differs
              exact absurd same differs
            · exact free
        obtain ⟨monitor, observed, disciplined⟩ := follows
        refine ⟨monitor, observed, ?_⟩
        exact { disciplined with bootstrap := fun _ _ => free }
      · exact follows

end

end Discipline

/-! ### Without the `imaildir_t` -/

section Quiet

variable {M : Type} (host : UpImaildir M) {world : UpWorld M}

/-- Nothing was sent, and there is still no `imaildir_t`. -/
def Quiet (out : List UpCmd) (world : UpWorld M) : Prop :=
  world.out = out ∧ world.up.m = false

/-- Nothing was sent before a failure. -/
def Silent (out : List UpCmd) (failure : UpFailure M) : Prop :=
  failure.2.out = out

section

variable (gone : world.up.m = false)

include gone

theorem UpWorld.healthcheck_quiet (good : UpWorld M → Prop) :
    Sat world.healthcheck good (Silent world.out) := by
  unfold UpWorld.healthcheck
  rw [gone]
  exact rfl

theorem UpWorld.upAdvanceState_quiet :
    Sat (world.upAdvanceState host) (Quiet world.out) (Silent world.out) := by
  unfold UpWorld.upAdvanceState
  cases world.up.done with
  | true => exact ⟨rfl, gone⟩
  | false =>
    rw [if_neg (by decide)]
    exact Sat.bind (UpWorld.healthcheck_quiet gone fun _ => False) fun _ never => never.elim

theorem UpWorld.calls_quiet (calls : List UpCall) :
    Sat (calls.foldlM UpWorld.call world) (Quiet world.out) (Silent world.out) := by
  induction calls generalizing world with
  | nil => exact ⟨rfl, gone⟩
  | cons upCall rest ih =>
    have first : Sat (world.call upCall) (Quiet world.out) (Silent world.out) := by
      cases upCall with
      | select uidvldUp himodseqUp examine =>
        unfold UpWorld.call upImaildirSelect
        cases world.up.select.ready with
        | false => exact ⟨rfl, gone⟩
        | true =>
          cases world.up.synced with
          | false => exact rfl
          | true => cases world.up.reselect.needed <;> first | exact rfl | exact ⟨rfl, gone⟩
      | relayCmd tag cmd =>
        unfold UpWorld.call upImaildirRelayCmd
        cases world.up.reselect.needed <;> first | exact rfl | exact ⟨rfl, gone⟩
      | haveLocalFile uid resync => cases resync <;> exact ⟨rfl, gone⟩
      | holdEnd => exact ⟨rfl, gone⟩
    rw [foldlM_cons]
    refine Sat.bind first fun next quiet => ?_
    have later := ih quiet.2
    rw [quiet.1] at later
    exact later

/-- An `up_t` without an `imaildir_t` sends nothing. -/
theorem UpWorld.run_quiet (input : UpInput M) :
    Sat (world.run host input) (Quiet world.out) (Silent world.out) := by
  have stops : ∀ next : UpWorld M → Except (UpFailure M) (UpWorld M),
      Sat (world.healthcheck >>= next) (Quiet world.out) (Silent world.out) := fun _ =>
    Sat.bind (UpWorld.healthcheck_quiet gone fun _ => False) fun _ never => never.elim
  cases input with
  | stResp st => exact stops _
  | fetchResp fetch => exact stops _
  | vanishedResp uids => exact stops _
  | existsResp => exact stops _
  | plusResp => exact stops _
  | idleBlock =>
    have wanted : ({ world with up := { world.up with
        idleBlock := { world.up.idleBlock with want := true } } } : UpWorld M).up.m = false := gone
    exact UpWorld.upAdvanceState_quiet host wanted
  | idleUnblock =>
    have wanted : ({ world with up := { world.up with idleBlock := {} } } : UpWorld M).up.m =
      false := gone
    exact UpWorld.upAdvanceState_quiet host wanted
  | unselect => exact stops _
  | advanceState => exact world.upAdvanceState_quiet host gone
  | elsewhere imaildir calls =>
    have begun : ({ world with imaildir } : UpWorld M).up.m = false := gone
    show Sat (UpWorld.take _ _) _ _
    unfold UpWorld.take
    exact Sat.bind (UpWorld.calls_quiet begun calls) fun next quiet => quiet
  | failed => exact ⟨rfl, rfl⟩

end

end Quiet

/-! ### Runs -/

/-- An `up_t` under observation. -/
structure Observed (M : Type) where
  imaildir : M
  up : Up := {}
  monitor : IdleMonitor := {}

/-- What ends a run: a call that fails, or a command out of place. -/
inductive ObservedFault where
  | stopped (fault : UpFault)
  | undisciplined (cmd : UpCmd)
  deriving DecidableEq

namespace Observed

variable {M : Type} (host : UpImaildir M)

/-- A call into the `up_t`, and its commands. -/
def step (state : Observed M) (input : UpInput M) : Except ObservedFault (Observed M) :=
  let monitor := state.monitor.hear input
  match UpWorld.run host ⟨state.imaildir, state.up, []⟩ input with
  | .ok world =>
    match monitor.emitAll world.out with
    | .ok monitor => .ok ⟨world.imaildir, world.up, monitor⟩
    | .error cmd => .error (.undisciplined cmd)
  | .error (fault, world) =>
    match monitor.emitAll world.out with
    | .ok _ => .error (.stopped fault)
    | .error cmd => .error (.undisciplined cmd)

/-- The UIDVALIDITY that a response announces. -/
def announced : UpInput M → Option Nat
  | .stResp ⟨none, .ok, some (.uidvld uidvld)⟩ => some uidvld
  | _ => none

/-- No UIDVALIDITY but the known one is announced during an IDLE without its DONE. -/
def Calm (state : Observed M) (input : UpInput M) : Prop :=
  ∀ uidvld ∈ announced input, uidvld = state.up.select.uidvldUp ∨ state.up.idle.Free

instance (state : Observed M) (input : UpInput M) : Decidable (state.Calm input) :=
  inferInstanceAs (Decidable (∀ uidvld ∈ announced input, _))

/-- As long as there is an `imaildir_t` the monitor knows what the `up_t` knows. -/
def Sound (state : Observed M) : Prop :=
  state.up.m = true → Disciplined state.up.face state.monitor

/-- A tagged response takes the first callback. -/
theorem taggedStatusType_sat {state : Observed M} (disciplined : Disciplined state.up.face state.monitor)
    (tag : UpTag) (st : UpStResp) :
    Sat (UpWorld.taggedStatusType host ⟨state.imaildir, state.up, []⟩ tag st)
      (Obeys (state.monitor.answer tag)) (Heard (state.monitor.answer tag)) := by
  unfold UpWorld.taggedStatusType
  dsimp only
  cases awaited : state.up.cbs with
  | nil => exact ⟨_, rfl⟩
  | cons cb rest =>
    by_cases unknown : tag ≠ cb.tag
    · show Sat (if _ then _ else _) _ _
      rw [if_pos unknown]
      exact ⟨_, rfl⟩
    · show Sat (if _ then _ else _) _ _
      rw [if_neg unknown]
      obtain rfl := not_not.mp unknown
      have called : Sat
          (UpWorld.callback host ⟨state.imaildir, { state.up with cbs := rest }, []⟩ cb st)
          (Obeys (state.monitor.answer cb.tag)) (Heard (state.monitor.answer cb.tag)) := by
        by_cases idleCall : cb.call = .idleDone
        · unfold UpWorld.callback
          rw [idleCall]
          show Sat (UpWorld.idleDone _ st) _ _
          unfold UpWorld.idleDone
          refine Sat.ite (fun _ => ?_) fun _ => ?_
          · exact ⟨_, rfl⟩
          · exact ⟨_, rfl, disciplined.answerIdle awaited idleCall⟩
        · have popped : Obeys (state.monitor.answer cb.tag)
              (⟨state.imaildir, { state.up with cbs := rest }, []⟩ : UpWorld M) :=
            ⟨_, rfl, disciplined.answerOther awaited idleCall⟩
          exact UpWorld.callback_sat host popped idleCall st
      refine Sat.bind called fun next follows => ?_
      refine Sat.bind (next.postCmdDone_sat host follows st.code) fun last observed => ?_
      exact last.upAdvanceState_sat host observed

/-- A call into an `up_t` that has its `imaildir_t`. -/
theorem run_sat {state : Observed M} (disciplined : Disciplined state.up.face state.monitor)
    (input : UpInput M) (calm : state.Calm input) :
    Sat (UpWorld.run host ⟨state.imaildir, state.up, []⟩ input)
      (fun next => ∃ monitor, (state.monitor.hear input).emitAll next.out = .ok monitor ∧
        (next.up.m = true → Disciplined next.up.face monitor)) (Heard (state.monitor.hear input)) := by
  have begun : ∀ imaildir, Obeys state.monitor (⟨imaildir, state.up, []⟩ : UpWorld M) :=
    fun _ => ⟨state.monitor, rfl, disciplined⟩
  have obeyed : ∀ {outcome : Except (UpFailure M) (UpWorld M)} {start : IdleMonitor},
      Sat outcome (Obeys start) (Heard start) →
      Sat outcome (fun next => ∃ monitor, start.emitAll next.out = .ok monitor ∧
        (next.up.m = true → Disciplined next.up.face monitor)) (Heard start) :=
    fun sat => sat.mono fun _ ⟨monitor, observed, follows⟩ => ⟨monitor, observed, fun _ => follows⟩
  have checked : ∀ start, Sat (UpWorld.healthcheck (⟨state.imaildir, state.up, []⟩ : UpWorld M))
      (fun next => next = ⟨state.imaildir, state.up, []⟩) (Heard start) := by
    intro start
    unfold UpWorld.healthcheck
    show Sat (if state.up.m = true then _ else _) _ _
    cases state.up.m with
    | true => exact rfl
    | false => exact ⟨start, rfl⟩
  cases input with
  | stResp st =>
    obtain ⟨tag, status, code⟩ := st
    refine Sat.bind (checked _) ?_
    rintro _ rfl
    cases tag with
    | some tag => exact obeyed (taggedStatusType_sat host disciplined tag _)
    | none =>
      show Sat (UpWorld.untaggedStatusType host _ _) _ _
      unfold UpWorld.untaggedStatusType
      by_cases good : status = .ok
      · subst good
        rw [if_pos rfl]
        refine obeyed (UpWorld.untaggedOk_sat host (begun _) code fun uidvld same => ?_)
        subst same
        exact calm uidvld rfl
      · rw [if_neg good]
        exact obeyed ((begun _).fail _ _)
  | fetchResp fetch => exact obeyed (UpWorld.upFetchResp_sat host (begun _) fetch)
  | vanishedResp uids => exact obeyed (UpWorld.upVanishedResp_sat host (begun _) uids)
  | existsResp => exact obeyed (UpWorld.upExistsResp_sat host (begun _))
  | plusResp =>
    refine Sat.bind (checked _) ?_
    rintro _ rfl
    show Sat (if (!state.up.idle.sent) = true then _ else _) _ _
    cases sent : state.up.idle.sent with
    | false => exact ⟨_, rfl⟩
    | true =>
      rw [if_neg (by decide)]
      refine obeyed (UpWorld.upAdvanceState_sat host ?_)
      exact ⟨_, rfl, disciplined.plus sent⟩
  | idleBlock =>
    refine obeyed (UpWorld.upAdvanceState_sat host ?_)
    exact ⟨_, rfl, { disciplined with blocked := rfl }⟩
  | idleUnblock =>
    refine obeyed (UpWorld.upAdvanceState_sat host ?_)
    exact ⟨_, rfl, { disciplined with blocked := rfl }⟩
  | unselect => exact obeyed (UpWorld.upUnselect_sat host (begun _))
  | advanceState => exact obeyed (UpWorld.upAdvanceState_sat host (begun _))
  | elsewhere imaildir calls => exact obeyed (UpWorld.take_obeys (begun _) _)
  | failed => exact ⟨_, rfl, fun owned => nomatch owned⟩

/-- A calm call keeps the knowledge of the monitor, and its commands are in place. -/
theorem step_sound (state : Observed M) (input : UpInput M) (sound : state.Sound)
    (calm : state.Calm input) :
    Sat (step host state input) Sound (fun fault => ∀ cmd, fault ≠ .undisciplined cmd) := by
  unfold step
  cases owned : state.up.m with
  | true =>
    have sat := run_sat host (sound owned) input calm
    cases outcome : UpWorld.run host ⟨state.imaildir, state.up, []⟩ input with
    | ok world =>
      obtain ⟨next, observed, follows⟩ := sat.of_ok outcome
      show Sat (match IdleMonitor.emitAll _ world.out with | .ok _ => _ | .error _ => _) _ _
      rw [observed]
      exact follows
    | error failure =>
      obtain ⟨next, observed⟩ := sat.of_error outcome
      show Sat (match IdleMonitor.emitAll _ failure.2.out with | .ok _ => _ | .error _ => _) _ _
      rw [observed]
      exact fun _ same => nomatch same
  | false =>
    have lost : (⟨state.imaildir, state.up, []⟩ : UpWorld M).up.m = false := owned
    have sat := UpWorld.run_quiet host lost input
    cases outcome : UpWorld.run host ⟨state.imaildir, state.up, []⟩ input with
    | ok world =>
      obtain ⟨silent, gone⟩ := sat.of_ok outcome
      show Sat (match IdleMonitor.emitAll _ world.out with | .ok _ => _ | .error _ => _) _ _
      rw [silent]
      exact fun owned => absurd (gone.symm.trans owned) (by decide)
    | error failure =>
      have silent : failure.2.out = [] := sat.of_error outcome
      show Sat (match IdleMonitor.emitAll _ failure.2.out with | .ok _ => _ | .error _ => _) _ _
      rw [silent]
      exact fun _ same => nomatch same

/-- At the beginning nothing is awaited. -/
theorem sound_initial (imaildir : M) : Sound ({ imaildir } : Observed M) := fun _ =>
  { awaited := rfl
    blocked := rfl
    unselected := rfl
    absent := fun _ => rfl
    fresh := fun _ => ⟨rfl, rfl⟩
    idle := fun sent => nomatch sent
    calls := rfl
    matched := fun _ mem => nomatch mem
    cmds := fun _ mem => nomatch mem
    tags := fun _ mem => nomatch mem
    bootstrap := fun needed => nomatch needed
    selected := fun sent => nomatch sent }

/-- Along every calm run, whatever the server, the `imaildir_t` and the owner of the `up_t` do: a
DONE is sent once for an IDLE and after its `+`, nothing but that DONE is sent during an IDLE, an
IDLE is sent only when nothing is awaited and it is not to be blocked, and nothing is sent after an
UNSELECT. -/
theorem idle_discipline (imaildir : M) (inputs : List (UpInput M))
    (calm : Run.Guarded (step host) Calm { imaildir } inputs) (cmd : UpCmd) :
    Run.run (step host) { imaildir } inputs ≠ .error (.undisciplined cmd) := by
  have sat := calm.sat (step_sound host) (sound_initial imaildir)
  exact fun outcome => sat.of_error outcome cmd rfl

/-! ### An announcement during an IDLE -/

/-- An `imaildir_t` without messages, which agrees to everything. -/
def idleHost : UpImaildir Unit where
  getUnfilledMsgs _ := []
  getUnpushedExpunges _ := []
  allowDownload _ := true
  lookupMsg _ _ := (none, false)
  selected _ _ := { imaildir := () }
  synced _ _ := { imaildir := () }
  newMsg _ _ _ := { imaildir := () }
  updateFlags _ _ _ := { imaildir := () }
  handleStaticFetchAttr _ _ := { imaildir := () }
  deleteMsg _ _ := { imaildir := () }
  checkUidvldUp _ _ := { imaildir := () }
  setHimodseqUp _ _ := { imaildir := () }
  relayCmdDone _ _ _ := { imaildir := () }

/-- A mailbox is selected and bootstrapped, and IDLE is sent and accepted. -/
def idling : List (UpInput Unit) :=
  [.elsewhere () [.select 0 0 false], .advanceState, .stResp ⟨none, .ok, some (.uidvld 7)⟩,
    .stResp ⟨some (.up 1), .ok, none⟩, .stResp ⟨some (.up 2), .ok, some (.himodseq 3)⟩, .plusResp]

theorem idle_discipline_idling :
    Run.run (step idleHost) { imaildir := () } idling ≠ .error (.undisciplined .idleDone) :=
  idle_discipline idleHost () idling (by decide) .idleDone

/-- A UIDVALIDITY is announced during the IDLE, and then a new message: the FETCH of the bootstrap
is sent without a DONE. -/
theorem idle_not_disciplined :
    Run.run (step idleHost) { imaildir := () }
      (idling ++ [.stResp ⟨none, .ok, some (.uidvld 8)⟩, .existsResp]) =
        .error (.undisciplined (.detectionFetch 4 1)) :=
  rfl

end Observed

end Splintermail
