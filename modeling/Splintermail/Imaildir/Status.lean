/-
This file models `imaildir_process_status_resp`, which corrects the server's response to a
STATUS for what is in the mailbox, and compares the result with what a SELECT finds.

The server's counts are raised by every message with a `uid_local` and lowered by every
message that is not for us. The counts of a SELECT are those of the views, which are the
FILLED messages. The two agree if every message that is counted is FILLED or is a server
message that is not UNFILLED: a local message that is EXPUNGED but still in the tree is
counted by the STATUS and has no view.
-/

import Splintermail.Imap.SeqSet
import Splintermail.Imaildir.Select

namespace Splintermail

open List

/-! ### The attributes -/

namespace IeStatusAttr

/-- `IE_STATUS_ATTR_MESSAGES` -/
def messages : Nat := 1

/-- `IE_STATUS_ATTR_RECENT` -/
def recent : Nat := 2

/-- `IE_STATUS_ATTR_UIDNEXT` -/
def uidnext : Nat := 4

/-- `IE_STATUS_ATTR_UIDVLD` -/
def uidvld : Nat := 8

/-- `IE_STATUS_ATTR_UNSEEN` -/
def unseen : Nat := 16

/-- `IE_STATUS_ATTR_HIMODSEQ` -/
def himodseq : Nat := 32

/-- The attributes have a bit. -/
def Asks (attrs attr : Nat) : Prop := attrs &&& attr ≠ 0

instance (attrs attr : Nat) : Decidable (Asks attrs attr) := inferInstanceAs (Decidable (_ ≠ _))

end IeStatusAttr

/-! ### The correction of the counts -/

/-- The counts of `imaildir_process_status_resp`. -/
structure StatusCounts where
  messages : Nat
  unseen : Nat
  deriving DecidableEq, Repr

/-- One step of the loop of `imaildir_process_status_resp`. -/
def StatusCounts.correct (counts : StatusCounts) (msg : Msg) : StatusCounts :=
  if msg.key.uidLocal > 0 then
    { messages := uintSucc counts.messages
      unseen := if !msg.flags.seen then uintSucc counts.unseen else counts.unseen }
  else if msg.state = .not4me then
    { messages := if counts.messages ≠ 0 then counts.messages - 1 else counts.messages
      unseen := if !msg.flags.seen ∧ counts.unseen ≠ 0 then counts.unseen - 1 else counts.unseen }
  else counts

open IeStatusAttr in
/-- `imaildir_process_status_resp` -/
def Box.processStatusResp (box : Box) (resp : IeStatusAttrResp) : IeStatusAttrResp :=
  let counts : StatusCounts := ⟨resp.messages, resp.unseen⟩
  let counts := if resp.attrs &&& (messages ||| unseen) ≠ 0
    then box.store.msgs.foldl StatusCounts.correct counts else counts
  { attrs := resp.attrs
    messages := if Asks resp.attrs messages then counts.messages else 0
    recent := 0
    uidnext := if Asks resp.attrs uidnext then (box.store.hiUidDn + 1) % (uintMax + 1) else 0
    uidvld := if Asks resp.attrs uidvld then box.store.uidvldDn else 0
    unseen := if Asks resp.attrs unseen then counts.unseen else 0
    himodseq := if Asks resp.attrs himodseq then box.store.himodseqDn else 0 }

/-! ### Agreement with a SELECT -/

/-- The number of an UIDNEXT response. -/
def SelectResponse.uidnext : SelectResponse → Option Nat
  | .status _ _ (some (.uidnext uid)) _ => some uid
  | _ => none

/-- What is asked for is what a SELECT finds. -/
structure StatusAgrees (box : Box) (resp : IeStatusAttrResp) : Prop where
  messages : IeStatusAttr.Asks resp.attrs IeStatusAttr.messages →
    resp.messages = (viewTree box).toList.length
  unseen : IeStatusAttr.Asks resp.attrs IeStatusAttr.unseen →
    resp.unseen = (viewTree box).toList.countP fun view => !view.flags.seen
  uidnext : IeStatusAttr.Asks resp.attrs IeStatusAttr.uidnext → ∀ response,
    sendUidnextResp box.store.hiUidDn = .ok response → response.uidnext = some resp.uidnext

/-- The messages that either count is about. -/
def counting (attr : Nat) (flags : MsgFlags) : Bool := attr = IeStatusAttr.messages ∨ !flags.seen

/-- The message is on the server. -/
def Msg.onServer (msg : Msg) : Bool := msg.key.uidLocal = 0 ∧ msg.state ≠ .expunged

/-- A count of the messages on the server. -/
def Box.serverCount (box : Box) (attr : Nat) : Nat :=
  box.store.msgs.countP fun msg => msg.onServer && counting attr msg.flags

/-- A count of the local messages. -/
def Box.localCount (box : Box) (attr : Nat) : Nat :=
  box.store.msgs.countP fun msg => msg.key.uidLocal ≠ 0 && counting attr msg.flags

/-- The response counts the messages that are on the server, which are those with a `uid_up` that are
not EXPUNGED. A message has a `uid_up` or a `uid_local`, and the tree is sorted by them. -/
structure InSync (box : Box) (resp : IeStatusAttrResp) : Prop where
  sorted : Tree.Sorted Msg.key box.store.msgs
  single : ∀ msg ∈ box.store.msgs, msg.key.uidLocal = 0 ↔ msg.key.uidUp ≠ 0
  messages : IeStatusAttr.Asks resp.attrs IeStatusAttr.messages →
    resp.messages ≤ uintMax ∧ resp.messages = box.serverCount IeStatusAttr.messages
  unseen : IeStatusAttr.Asks resp.attrs IeStatusAttr.unseen →
    resp.unseen ≤ uintMax ∧ resp.unseen = box.serverCount IeStatusAttr.unseen

/-- The message is FILLED, or it is a server message that is NOT4ME or EXPUNGED. -/
def Msg.Settled (msg : Msg) : Prop :=
  msg.state = .filled ∨ (msg.key.uidLocal = 0 ∧ (msg.state = .not4me ∨ msg.state = .expunged))

instance Msg.settledDecidable (msg : Msg) : Decidable msg.Settled := inferInstanceAs (Decidable (_ ∨ _))

/-- The messages that are counted are settled. -/
def SettledFor (box : Box) (attrs : Nat) : Prop :=
  ∀ attr ∈ [IeStatusAttr.messages, IeStatusAttr.unseen], IeStatusAttr.Asks attrs attr →
    ∀ msg ∈ box.store.msgs, counting attr msg.flags = true → msg.Settled

/-- The messages that are counted are few enough for an `unsigned int`. -/
def Countable (box : Box) (attrs : Nat) : Prop :=
  ∀ attr ∈ [IeStatusAttr.messages, IeStatusAttr.unseen], IeStatusAttr.Asks attrs attr →
    box.serverCount attr + box.localCount attr ≤ uintMax

instance (box : Box) (attrs : Nat) : Decidable (Countable box attrs) :=
  inferInstanceAs (Decidable (∀ attr ∈ _, _ → _))

/-! ### One count -/

/-- The step of the loop for one count. -/
def correctCount (attr : Nat) (count : Nat) (msg : Msg) : Nat :=
  if counting attr msg.flags then
    if msg.key.uidLocal > 0 then uintSucc count
    else if msg.state = .not4me then count - 1
    else count
  else count

/-- The two counts are corrected apart from each other. -/
theorem foldl_correct (msgs : List Msg) (counts : StatusCounts) :
    msgs.foldl StatusCounts.correct counts =
      ⟨msgs.foldl (correctCount IeStatusAttr.messages) counts.messages,
        msgs.foldl (correctCount IeStatusAttr.unseen) counts.unseen⟩ := by
  induction msgs generalizing counts with
  | nil => rfl
  | cons msg rest ih =>
    have step : counts.correct msg =
        ⟨correctCount IeStatusAttr.messages counts.messages msg,
          correctCount IeStatusAttr.unseen counts.unseen msg⟩ := by
      unfold StatusCounts.correct correctCount
      have all : counting IeStatusAttr.messages msg.flags = true := rfl
      have some : counting IeStatusAttr.unseen msg.flags = !msg.flags.seen := by
        simp [counting, IeStatusAttr.unseen, IeStatusAttr.messages]
      rw [all, some, if_pos rfl]
      split_ifs <;> simp_all
    rw [foldl_cons, foldl_cons, foldl_cons, ih, step]

/-- Server messages lower a count. -/
theorem foldl_correctCount_server (attr : Nat) {msgs : List Msg}
    (server : ∀ msg ∈ msgs, msg.key.uidLocal = 0) (count : Nat) :
    msgs.foldl (correctCount attr) count =
      count - msgs.countP fun msg => msg.state = .not4me && counting attr msg.flags := by
  induction msgs generalizing count with
  | nil => rfl
  | cons msg rest ih =>
    have here := server msg mem_cons_self
    rw [foldl_cons, ih fun other mem => server other (.tail _ mem), countP_cons]
    unfold correctCount
    simp only [here, gt_iff_lt, lt_irrefl, if_false, Bool.and_eq_true, decide_eq_true_eq]
    split_ifs <;> simp_all
    omega

/-- A count is raised by the local messages, modulo the size of an `unsigned int`, and is then lowered
by the server messages, down to zero. -/
theorem foldl_correctCount (attr : Nat) {msgs : List Msg} (sorted : Tree.Sorted Msg.key msgs)
    (single : ∀ msg ∈ msgs, msg.key.uidLocal = 0 ↔ msg.key.uidUp ≠ 0) {count : Nat}
    (fits : count ≤ uintMax) :
    msgs.foldl (correctCount attr) count =
      (count + msgs.countP fun msg => msg.key.uidLocal ≠ 0 && counting attr msg.flags) %
          (uintMax + 1) -
        msgs.countP fun msg =>
          msg.key.uidLocal = 0 && (msg.state = .not4me && counting attr msg.flags) := by
  induction msgs generalizing count with
  | nil => exact (Nat.mod_eq_of_lt (Nat.lt_succ_of_le fits)).symm
  | cons msg rest ih =>
    obtain ⟨below, restSorted⟩ := pairwise_cons.mp sorted
    by_cases server : msg.key.uidLocal = 0
    · -- The messages after a server message are server messages.
      have all : ∀ other ∈ msg :: rest, other.key.uidLocal = 0 := by
        intro other mem
        obtain rfl | inRest := mem_cons.mp mem
        · exact server
        · have positive := (single msg mem_cons_self).mp server
          refine (single other mem).mpr fun zero => ?_
          obtain less | ⟨same, -⟩ := Prod.Lex.toLex_lt_toLex.mp (below other inRest)
          · exact Nat.not_lt_zero _ (zero ▸ less)
          · exact positive (same.trans zero)
      rw [foldl_correctCount_server attr all,
        show List.countP (fun msg => decide (msg.key.uidLocal ≠ 0) && counting attr msg.flags)
          (msg :: rest) = 0 from countP_eq_zero.mpr fun other mem => by
            rw [all other mem]
            simp,
        Nat.add_zero, Nat.mod_eq_of_lt (Nat.lt_succ_of_le fits)]
      congr 1
      refine countP_congr fun other mem => ?_
      rw [all other mem]
      simp
    · have restFits : correctCount attr count msg ≤ uintMax := by
        unfold correctCount uintSucc
        rw [if_pos (Nat.pos_of_ne_zero server)]
        split
        · exact Nat.le_of_lt_succ (Nat.mod_lt _ (Nat.succ_pos uintMax))
        · exact fits
      rw [foldl_cons, ih restSorted
        (fun other mem => single other (.tail _ mem)) restFits, countP_cons, countP_cons]
      unfold correctCount uintSucc
      rw [if_pos (Nat.pos_of_ne_zero server)]
      cases counts : counting attr msg.flags with
      | true => simp [server, Nat.add_assoc, Nat.add_comm 1]
      | false => simp

/-! ### The count of the views -/

/-- The views of the messages with a property are counted by the FILLED messages with it. -/
theorem countP_buildViews (box : Box) (counted : MsgFlags → Bool) :
    (box.buildViews.countP fun view => counted view.flags) =
      box.store.msgs.countP fun msg => msg.state = .filled && counted msg.flags := by
  have general : ∀ (msgs : List Msg) (views : List MsgView),
      ((msgs.foldl (fun views msg => if msg.state = .filled
        then Tree.insert MsgView.uidDn msg.view views else views) views).countP
          fun view => counted view.flags) =
      (views.countP fun view => counted view.flags) +
        msgs.countP fun msg => msg.state = .filled && counted msg.flags := by
    intro msgs
    induction msgs with
    | nil => exact fun views => rfl
    | cons msg rest ih =>
      intro views
      rw [foldl_cons, ih, countP_cons]
      by_cases filled : msg.state = .filled
      · have order : (Tree.insert MsgView.uidDn msg.view views).Perm (msg.view :: views) :=
          perm_orderedInsert _ msg.view views
        rw [if_pos filled, order.countP_eq, countP_cons, decide_eq_true filled, Bool.true_and]
        exact (Nat.add_assoc _ _ _).trans (congrArg _ (Nat.add_comm _ _))
      · rw [if_neg filled]
        simp [filled]
  have whole := general box.store.msgs []
  rwa [countP_nil, Nat.zero_add] at whole

/-! ### The agreement -/

/-- The messages that are counted but are not settled. -/
def Box.loose (box : Box) (attr : Nat) : Nat :=
  box.store.msgs.countP fun msg => !decide msg.Settled && counting attr msg.flags

/-- The FILLED messages. -/
def Box.filledCount (box : Box) (attr : Nat) : Nat :=
  box.store.msgs.countP fun msg => msg.state = .filled && counting attr msg.flags

/-- The server messages that are not for us. -/
def Box.not4meCount (box : Box) (attr : Nat) : Nat :=
  box.store.msgs.countP fun msg =>
    msg.key.uidLocal = 0 && (msg.state = .not4me && counting attr msg.flags)

/-- The messages on the server and the local ones are the FILLED ones, those not for us and those that
are not settled. -/
theorem count_balance (box : Box) (attr : Nat) :
    box.serverCount attr + box.localCount attr =
      box.filledCount attr + box.not4meCount attr + box.loose attr := by
  unfold Box.serverCount Box.localCount Box.filledCount Box.not4meCount Box.loose
  induction box.store.msgs with
  | nil => rfl
  | cons msg rest ih =>
    simp only [countP_cons]
    have here : ((if (msg.onServer && counting attr msg.flags) = true then 1 else 0) +
        if (decide (msg.key.uidLocal ≠ 0) && counting attr msg.flags) = true then 1 else 0) =
        ((if (decide (msg.state = .filled) && counting attr msg.flags) = true then 1 else 0) +
          if (decide (msg.key.uidLocal = 0) &&
            (decide (msg.state = .not4me) && counting attr msg.flags)) = true then 1 else 0) +
          if (!decide msg.Settled && counting attr msg.flags) = true then 1 else 0 := by
      unfold Msg.onServer Msg.Settled
      cases counting attr msg.flags with
      | false => simp
      | true =>
        have states : msg.state = .unfilled ∨ msg.state = .filled ∨ msg.state = .expunged ∨
            msg.state = .not4me := by cases msg.state <;> simp
        by_cases server : msg.key.uidLocal = 0 <;>
          obtain state | state | state | state := states <;> simp [server, state]
    omega

theorem not4meCount_le (box : Box) (attr : Nat) : box.not4meCount attr ≤ box.serverCount attr := by
  refine countP_mono_left fun msg _ counted => ?_
  obtain ⟨server, state, flags⟩ : msg.key.uidLocal = 0 ∧ msg.state = .not4me ∧
      counting attr msg.flags = true := by simpa using counted
  simp [Msg.onServer, server, state, flags]

theorem loose_eq_zero (box : Box) (attr : Nat) :
    box.loose attr = 0 ↔ ∀ msg ∈ box.store.msgs, counting attr msg.flags = true → msg.Settled := by
  unfold Box.loose
  rw [countP_eq_zero]
  refine forall_congr' fun msg => forall_congr' fun _ => ?_
  rw [Bool.and_eq_true, Bool.not_eq_true', decide_eq_false_iff_not]
  exact ⟨fun both counted => not_not.mp fun loose => both ⟨loose, counted⟩,
    fun settled both => both.1 (settled both.2)⟩

/-- One corrected count is the number of views that it is about, if nothing is loose and nothing wraps
around. If only one of the two is known, the agreement says the other. -/
theorem corrected_eq (box : Box) (attr : Nat) (fits : box.serverCount attr ≤ uintMax) :
    let corrected := (box.serverCount attr + box.localCount attr) % (uintMax + 1) - box.not4meCount attr
    (box.serverCount attr + box.localCount attr ≤ uintMax →
      (corrected = box.filledCount attr ↔ box.loose attr = 0)) ∧
    (box.loose attr = 0 →
      (corrected = box.filledCount attr ↔
        box.serverCount attr + box.localCount attr ≤ uintMax)) := by
  intro corrected
  have balance := count_balance box attr
  have few := not4meCount_le box attr
  have whole : box.serverCount attr + box.localCount attr ≤ uintMax →
      corrected = box.serverCount attr + box.localCount attr - box.not4meCount attr := fun small =>
    congrArg (· - box.not4meCount attr) (Nat.mod_eq_of_lt (Nat.lt_succ_of_le small))
  refine ⟨fun small => ?_, fun settled => ⟨fun same => not_lt.mp fun large => ?_, fun small => ?_⟩⟩
  · rw [whole small]
    omega
  · -- A count that wraps around is too small, or is lowered to zero.
    have less : (box.serverCount attr + box.localCount attr) % (uintMax + 1) < uintMax + 1 :=
      Nat.mod_lt _ (Nat.succ_pos uintMax)
    change (box.serverCount attr + box.localCount attr) % (uintMax + 1) - box.not4meCount attr = _ at same
    omega
  · rw [whole small]
    omega

variable {resp : IeStatusAttrResp}

/-- A corrected count, with the views that it stands for. -/
theorem foldl_correctCount_sync {box : Box} (sync : InSync box resp) {attr count : Nat}
    (fits : count ≤ uintMax) (counted : count = box.serverCount attr) :
    box.store.msgs.foldl (correctCount attr) count =
      (box.serverCount attr + box.localCount attr) % (uintMax + 1) - box.not4meCount attr := by
  rw [foldl_correctCount attr sync.sorted sync.single fits, counted]
  rfl

/-- What the response says of the messages. -/
theorem processStatusResp_messages {box : Box}
    (asks : IeStatusAttr.Asks resp.attrs IeStatusAttr.messages) :
    (box.processStatusResp resp).messages =
      box.store.msgs.foldl (correctCount IeStatusAttr.messages) resp.messages := by
  have loops : resp.attrs &&& (IeStatusAttr.messages ||| IeStatusAttr.unseen) ≠ 0 := by
    rw [Nat.and_or_distrib_left]
    exact fun zero => asks (Nat.or_eq_zero_iff.mp zero).1
  unfold Box.processStatusResp
  dsimp only
  rw [if_pos asks, if_pos loops, foldl_correct]

/-- What the response says of the unseen messages. -/
theorem processStatusResp_unseen {box : Box}
    (asks : IeStatusAttr.Asks resp.attrs IeStatusAttr.unseen) :
    (box.processStatusResp resp).unseen =
      box.store.msgs.foldl (correctCount IeStatusAttr.unseen) resp.unseen := by
  have loops : resp.attrs &&& (IeStatusAttr.messages ||| IeStatusAttr.unseen) ≠ 0 := by
    rw [Nat.and_or_distrib_left]
    exact fun zero => asks (Nat.or_eq_zero_iff.mp zero).2
  unfold Box.processStatusResp
  dsimp only
  rw [if_pos asks, if_pos loops, foldl_correct]

/-- In sync with the server, the response to a STATUS is what a SELECT finds if and only if the
messages that are counted are settled, as long as they are few enough for an `unsigned int`; and with
settled messages it is so if and only if they are. -/
theorem processStatusResp_agrees {box : Box} {resp : IeStatusAttrResp} (sync : InSync box resp) :
    (Countable box resp.attrs →
      (StatusAgrees box (box.processStatusResp resp) ↔ SettledFor box resp.attrs)) ∧
    (SettledFor box resp.attrs →
      (StatusAgrees box (box.processStatusResp resp) ↔ Countable box resp.attrs)) := by
  have views := (viewTree_toList box).1
  have messages : IeStatusAttr.Asks resp.attrs IeStatusAttr.messages →
      (box.serverCount IeStatusAttr.messages ≤ uintMax ∧
        ((box.processStatusResp resp).messages = (viewTree box).toList.length ↔
          (box.serverCount IeStatusAttr.messages + box.localCount IeStatusAttr.messages) %
              (uintMax + 1) - box.not4meCount IeStatusAttr.messages =
            box.filledCount IeStatusAttr.messages)) := by
    intro asks
    obtain ⟨fits, counted⟩ := sync.messages asks
    refine ⟨counted ▸ fits, ?_⟩
    have whole : box.buildViews.length = box.filledCount IeStatusAttr.messages :=
      (countP_eq_length.mpr fun view _ => rfl).symm.trans
        (countP_buildViews box (counting IeStatusAttr.messages))
    rw [processStatusResp_messages asks, foldl_correctCount_sync sync fits counted, views, whole]
  have unseen : IeStatusAttr.Asks resp.attrs IeStatusAttr.unseen →
      (box.serverCount IeStatusAttr.unseen ≤ uintMax ∧
        ((box.processStatusResp resp).unseen =
            ((viewTree box).toList.countP fun view => !view.flags.seen) ↔
          (box.serverCount IeStatusAttr.unseen + box.localCount IeStatusAttr.unseen) %
              (uintMax + 1) - box.not4meCount IeStatusAttr.unseen =
            box.filledCount IeStatusAttr.unseen)) := by
    intro asks
    obtain ⟨fits, counted⟩ := sync.unseen asks
    refine ⟨counted ▸ fits, ?_⟩
    have same : (fun flags : MsgFlags => !flags.seen) = counting IeStatusAttr.unseen := by
      funext flags
      simp [counting, IeStatusAttr.unseen, IeStatusAttr.messages]
    have whole : (box.buildViews.countP fun view => !view.flags.seen) =
        box.filledCount IeStatusAttr.unseen := by
      unfold Box.filledCount
      rw [← same]
      exact countP_buildViews box fun flags => !flags.seen
    rw [processStatusResp_unseen asks, foldl_correctCount_sync sync fits counted, views, whole]
  have agrees : StatusAgrees box (box.processStatusResp resp) ↔
      (∀ attr ∈ [IeStatusAttr.messages, IeStatusAttr.unseen], IeStatusAttr.Asks resp.attrs attr →
        (box.serverCount attr + box.localCount attr) % (uintMax + 1) - box.not4meCount attr =
          box.filledCount attr) := by
    constructor
    · intro agrees attr mem asks
      obtain rfl | rfl : attr = IeStatusAttr.messages ∨ attr = IeStatusAttr.unseen := by
        simpa using mem
      · exact (messages asks).2.mp (agrees.messages asks)
      · exact (unseen asks).2.mp (agrees.unseen asks)
    · intro same
      refine ⟨fun asks => (messages asks).2.mpr (same _ (by simp) asks),
        fun asks => (unseen asks).2.mpr (same _ (by simp) asks), fun asks response selected => ?_⟩
      have sent : (box.processStatusResp resp).uidnext =
          (box.store.hiUidDn + 1) % (uintMax + 1) := if_pos asks
      rw [sendUidnextResp_ok selected, sent]
      rfl
  have fits : ∀ attr ∈ [IeStatusAttr.messages, IeStatusAttr.unseen],
      IeStatusAttr.Asks resp.attrs attr → box.serverCount attr ≤ uintMax := by
    intro attr mem asks
    obtain rfl | rfl : attr = IeStatusAttr.messages ∨ attr = IeStatusAttr.unseen := by
      simpa using mem
    · exact (messages asks).1
    · exact (unseen asks).1
  rw [agrees]
  unfold Countable SettledFor
  refine ⟨fun small => forall_congr' fun attr => forall_congr' fun mem => forall_congr' fun asks => ?_,
    fun settled => forall_congr' fun attr => forall_congr' fun mem => forall_congr' fun asks => ?_⟩
  · exact ((corrected_eq box attr (fits attr mem asks)).1 (small attr mem asks)).trans
      (loose_eq_zero box attr)
  · exact (corrected_eq box attr (fits attr mem asks)).2
      ((loose_eq_zero box attr).mpr (settled attr mem asks))

/-! ### Two mailboxes -/

/-- What the server says of a mailbox. -/
def serverStatus (messages unseen : Nat) : IeStatusAttrResp where
  attrs := 21
  messages := messages
  recent := 0
  uidnext := 9
  uidvld := 0
  unseen := unseen
  himodseq := 0

/-- A local message in some state. -/
def localMsg (uidLocal uidDn : Nat) (state : MsgState) : Msg where
  key := .ofLocal uidLocal
  uidDn := uidDn
  internaldate := {}
  flags := {}
  modseq := uidDn
  state := state

/-- A mailbox with a local message, a seen and an unseen message of the server and one that is not for
us. -/
def settledBox : Box :=
  plainBox [localMsg 1 2 .filled, plainMsg 3 true, plainMsg 4 false,
    { plainMsg 5 true with state := .not4me, uidDn := 0, modseq := 0 }]

/-- The response says three messages, of which two are unseen. -/
theorem processStatusResp_agrees_settled :
    StatusAgrees settledBox (settledBox.processStatusResp (serverStatus 3 1)) ↔
      SettledFor settledBox 21 :=
  (@processStatusResp_agrees settledBox (serverStatus 3 1)
    ⟨by unfold Tree.Sorted; decide, by decide, fun _ => ⟨by decide, rfl⟩, fun _ => ⟨by decide, rfl⟩⟩).1
    (by decide)

/-- A local message that is EXPUNGED, but waits for its connections, is counted. -/
theorem processStatusResp_waiting :
    InSync (plainBox [localMsg 1 1 .expunged]) (serverStatus 0 0) ∧
      ¬ StatusAgrees (plainBox [localMsg 1 1 .expunged])
        ((plainBox [localMsg 1 1 .expunged]).processStatusResp (serverStatus 0 0)) :=
  ⟨⟨by unfold Tree.Sorted; decide, by decide, fun _ => ⟨by decide, rfl⟩, fun _ => ⟨by decide, rfl⟩⟩,
    fun agrees => absurd (agrees.messages (by decide)) (by decide)⟩

end Splintermail
