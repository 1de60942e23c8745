/-
This file shows that every operation on an open mailbox is made of changes, also when
it fails: so whatever the changes keep holds after every operation, and on every disk
that an operation writes.

Adding a local file is the one operation that relies on its callers. The message of a
nonzero `uid_up` was never downloaded, because a download waits until the file is
added.
-/

import Splintermail.Imaildir.Change

namespace Splintermail

open Splintermail.Tree List

/-- The operation is not a check of the UIDVALIDITY, which may drop the cache. -/
def Operation.keepsCache : Operation → Bool
  | .checkUidvldUp .. => false
  | _ => true

/-- The key of the message that the operation may expunge. -/
def Operation.expires : Operation → Option MsgKey
  | .vanished uidUp => some (.up uidUp)
  | .expungeOne key => if key.uidUp = 0 then some key else none
  | _ => none

namespace Box

variable {host : Host} {box next : Box} {allowed : ChangeKind → Prop}

/-- The box that an operation leaves, whether it fails or not, is made of changes. -/
def Outcomes (host : Host) (allowed : ChangeKind → Prop) (box : Box) (outcome : Except Failure Box) :
    Prop :=
  Outcome.Sat outcome (Evolves host allowed box) fun failure => Evolves host allowed box failure.2

theorem Outcomes.of_evolves {outcome : Except Failure Box} (first : Evolves host allowed box next)
    (second : Outcomes host allowed next outcome) : Outcomes host allowed box outcome := by
  cases outcome with
  | ok last => exact first.trans second
  | error failure => exact first.trans second

theorem Outcomes.bind {outcome : Except Failure Box} {rest : Box → Except Failure Box}
    (first : Outcomes host allowed box outcome)
    (second : ∀ next, outcome = .ok next → Evolves host allowed box next →
      Outcomes host allowed next (rest next)) :
    Outcomes host allowed box (outcome >>= rest) := by
  cases outcome with
  | ok next => exact Outcomes.of_evolves first (second next rfl first)
  | error failure => exact first

/-- A filled message with the key is there, and an expunge too. -/
def isTwice (box : Box) (key : MsgKey) : Bool :=
  (box.findMsg key).any (fun msg => msg.state = .filled) && (box.findExpunge key).isSome

/-! ### Messages -/

variable {key : MsgKey} {msg : Msg}

theorem Sound.find_unique (sound : Sound box) {other : Msg} (found : box.findMsg key = some msg)
    (mem : other ∈ box.store.msgs) (same : other.key = key) : other = msg :=
  sound.keyed.msgsSorted.eq_of_key mem (find_mem found) (same.trans (find_key found).symm)

section

variable (found : box.findMsg key = some msg)

include found

theorem findMsg_changeMsg {change : Msg → Msg} (keeps : ∀ msg, (change msg).key = msg.key) :
    (box.changeMsg key change).findMsg key = some (change msg) := by
  have updated : (box.changeMsg key change).findMsg key = (box.findMsg key).map change :=
    find_update fun msg _ same => (keeps msg).trans same
  rw [updated, found]
  rfl

theorem setFile_found {file : MailFile} (result : box.setFile key file = .ok next) :
    next.findMsg key = some { msg with length := file.length, file := some file } := by
  unfold setFile at result
  rw [found] at result
  dsimp only at result
  split at result
  · cases result
  · cases result
    exact findMsg_changeMsg found fun _ => rfl

theorem handleNewMsgFile_found {length epoch : Nat}
    (result : box.handleNewMsgFile host key length epoch = .ok next) :
    ∃ file, next.findMsg key = some { msg with length := file.length, file := some file } := by
  unfold handleNewMsgFile at result
  refine ⟨_, setFile_found ?_ result⟩
  exact found

theorem findMsg_finalizeMsg : (box.finalizeMsg key).findMsg key = some (box.finalized msg) := by
  have changed : (box.changeMsg key box.finalized).findMsg key = some (box.finalized msg) :=
    findMsg_changeMsg found fun _ => rfl
  exact changed

end

section Messages

variable (plain : allowed .plain)
include plain

variable {key : MsgKey} {msg : Msg}

theorem edit_evolves (sound : Sound box) {change : Msg → Msg} (found : box.findMsg key = some msg)
    (edits : msg.Edits (change msg)) (unseen : box.dns = [] ∨ msg.state.numbered = false) :
    Evolves host allowed box (box.changeMsg key change) := by
  refine Evolves.single plain (.edit key change (fun other mem same => ?_) ?_)
  · rw [sound.find_unique found mem same]
    exact edits
  · refine unseen.imp_right fun unnumbered other mem same => ?_
    rw [sound.find_unique found mem same]
    exact unnumbered

theorem write_evolves {disk : Disk} (cache : disk.cache = box.disk.cache)
    (assigned : disk.assigned = box.disk.assigned) (invalid : disk.invalid = box.disk.invalid) :
    Evolves host allowed box (box.write disk) :=
  Evolves.single plain (.disk disk cache assigned invalid)

theorem setFile_outcomes (sound : Sound box) (found : box.findMsg key = some msg)
    (unseen : box.dns = [] ∨ msg.state.numbered = false) (file : MailFile) :
    Outcomes host allowed box (box.setFile key file) := by
  unfold setFile
  rw [found]
  dsimp only
  split
  · exact Evolves.refl
  · exact edit_evolves plain sound found ⟨rfl, rfl, rfl, rfl, Iff.rfl, fun _ => rfl⟩ unseen

theorem handleNewMsgFile_outcomes (sound : Sound box) (found : box.findMsg key = some msg)
    (unnumbered : msg.state.numbered = false) (length epoch : Nat) :
    Outcomes host allowed box (box.handleNewMsgFile host key length epoch) := by
  unfold handleNewMsgFile
  have written : Evolves host allowed box (box.write { box.disk with
      files := box.disk.files.filter (· ≠ ⟨.cur, epoch, key, length, host.name.take 32⟩) ++
        [⟨.cur, epoch, key, length, host.name.take 32⟩] }) := write_evolves plain rfl rfl rfl
  exact Outcomes.of_evolves written
    (setFile_outcomes plain (written.sound sound) found (.inr unnumbered) _)

variable (working : allowed .working)
include working

omit plain in
theorem updateMsg_outcomes (found : box.findMsg key = some msg)
    (unnumbered : msg.state.numbered = false) :
    Outcomes host allowed box (box.updateMsg host msg) := by
  unfold updateMsg
  rw [if_neg (ne_expunged_of_unnumbered unnumbered)]
  exact Evolves.single working (.save msg (find_mem found) unnumbered)

omit plain working in
theorem finalize_evolves (found : box.findMsg key = some msg)
    (unnumbered : msg.state.numbered = false) (finalize : allowed (.finalize msg.file.isSome)) :
    Evolves host allowed box ((box.finalizeAndSave host key).announce key) := by
  have same := find_key found
  subst same
  have finalized := findMsg_finalizeMsg found
  have saved : box.finalizeAndSave host msg.key = (box.finalizeMsg msg.key).append host
      (.value (.message (box.finalized msg).logged))
      [⟨box.store.uidvldDn, box.store.hiUidDn + 1, msg.key⟩] := by
    unfold finalizeAndSave
    simp only [finalized]
    rfl
  have appended := append_spec host (box.finalizeMsg msg.key)
    (.value (.message (box.finalized msg).logged))
    [⟨box.store.uidvldDn, box.store.hiUidDn + 1, msg.key⟩]
  have announced : (box.finalizeAndSave host msg.key).announce msg.key =
      (box.finalizeAndSave host msg.key).distribute (.new (box.finalized msg).view) := by
    unfold announce
    have found : (box.finalizeAndSave host msg.key).findMsg msg.key = some (box.finalized msg) := by
      unfold findMsg
      rw [saved, appended.trees]
      exact finalized
    rw [found]
    rfl
  rw [announced, saved]
  exact Evolves.single finalize (.finalize msg (find_mem found) unnumbered)

/-! ### Operations of an `up_t` -/

omit plain in
theorem updateMsgFlags_outcomes (found : box.findMsg key = some msg) (flags : MsgFlags) :
    Outcomes host allowed box (box.updateMsgFlags host msg flags) := by
  have mem := find_mem found
  obtain ⟨msgKey, uidDn, length, internaldate, oldFlags, modseq, state, file⟩ := msg
  unfold updateMsgFlags
  cases state with
  | unfilled | not4me => exact Evolves.refl
  | filled | expunged =>
    dsimp only
    split
    · exact Evolves.refl
    · exact Evolves.single working (.bump _ flags mem rfl)

theorem upUpdateFlags_outcomes (sound : Sound box) (found : box.findMsg key = some msg)
    (flags : MsgFlags) : Outcomes host allowed box (box.upUpdateFlags host msg flags) := by
  have same := find_key found
  subst same
  unfold upUpdateFlags
  split
  · rename_i state
    have unnumbered : msg.state.numbered = false := by
      rcases state with state | state <;> rw [state] <;> rfl
    split
    · exact Evolves.refl
    · have edited : Evolves host allowed box (box.changeMsg msg.key fun msg => { msg with flags }) :=
        edit_evolves plain sound found ⟨rfl, rfl, rfl, rfl, Iff.rfl, id⟩ (.inr unnumbered)
      exact Outcomes.of_evolves edited
        (updateMsg_outcomes working (findMsg_changeMsg found fun _ => rfl) unnumbered)
  · exact updateMsgFlags_outcomes working found flags

omit plain working in
/-- A message that is not in either tree is met. -/
theorem meet_evolves (sound : Sound box) (internaldate : ImapTime) (flags : MsgFlags)
    (meet : allowed (.meet key false)) (noMsg : box.findMsg key = none)
    (noExpunge : box.findExpunge key = none) (locals : key.uidLocal ≤ box.store.hiUidLocal) :
    Evolves host allowed box ((box.insertMsg (.unfilled key internaldate flags)).append host
      (.value (.message (.unfilled key internaldate flags))) []) := by
  have isAllowed : allowed (.meet key (box.findExpunge key).isSome) := by
    rw [noExpunge]
    exact meet
  refine Evolves.single isAllowed (.meet key internaldate flags noMsg ?_ ?_ locals)
  · intro line mem same
    rw [← (sound.log.valid line mem).modseq_eq_zero]
    exact sound.ledger.line_eq_zero (find_eq_none.mp noMsg) (find_eq_none.mp noExpunge) mem same
  · exact fun record mem same => absurd same (find_eq_none.mp noExpunge record mem)

omit plain working in
theorem upNewMsg_outcomes (sound : Sound box) {uidUp : Nat} (flags : MsgFlags)
    (meet : allowed (.meet (.up uidUp) false)) (noMsg : box.findMsg (.up uidUp) = none) (noExpunge : box.findExpunge (.up uidUp) = none) :
    Outcomes host allowed box (box.upNewMsg host uidUp flags) := by
  unfold upNewMsg
  show Evolves host allowed box ((box.append host _ []).insertMsg _)
  rw [append_insertMsg]
  exact meet_evolves sound {} flags meet noMsg noExpunge (Nat.zero_le _)

section

variable (finalize : allowed (.finalize true))

include finalize

theorem upHandleStaticFetchAttr_outcomes (sound : Sound box) (found : box.findMsg key = some msg)
    (resp : FetchResp) (body : FetchBody) (epoch : Nat) :
    Outcomes host allowed box (box.upHandleStaticFetchAttr host msg resp body epoch) := by
  have same := find_key found
  subst same
  unfold upHandleStaticFetchAttr
  split
  · exact Evolves.refl
  rename_i unfilled
  rw [not_not] at unfilled
  have unnumbered : msg.state.numbered = false := by rw [unfilled]; rfl
  split
  · exact Evolves.refl
  split
  · exact Evolves.refl
  have dated : Evolves host allowed box (box.changeMsg msg.key fun msg =>
      { msg with internaldate := resp.internaldate }) :=
    edit_evolves plain sound found ⟨rfl, rfl, rfl, rfl, Iff.rfl, id⟩ (.inr unnumbered)
  have datedSound := dated.sound sound
  have datedFound : (box.changeMsg msg.key fun msg =>
      { msg with internaldate := resp.internaldate }).findMsg msg.key =
        some { msg with internaldate := resp.internaldate } := findMsg_changeMsg found fun _ => rfl
  refine Outcomes.of_evolves dated ?_
  generalize box.changeMsg msg.key (fun msg => { msg with internaldate := resp.internaldate }) =
    datedBox at datedSound datedFound ⊢
  dsimp only
  split
  · have marked : Evolves host allowed datedBox (datedBox.changeMsg msg.key fun msg =>
        { msg with state := .not4me }) := by
      refine edit_evolves plain datedSound datedFound ⟨rfl, rfl, rfl, ?_, ⟨nofun, fun state => ?_⟩, id⟩
        (.inr unnumbered)
      · exact unnumbered.symm
      · exact nomatch unfilled.symm.trans state
    exact Outcomes.of_evolves marked
      (updateMsg_outcomes working (findMsg_changeMsg datedFound fun _ => rfl) rfl)
  · refine (handleNewMsgFile_outcomes plain datedSound datedFound unnumbered _ _).bind ?_
    intro next result _
    obtain ⟨file, nextFound⟩ := handleNewMsgFile_found datedFound result
    exact finalize_evolves nextFound unnumbered finalize

theorem upFetchBody_outcomes (sound : Sound box) (resp : FetchResp) (epoch : Nat) :
    Outcomes host allowed box (box.upFetchBody host resp epoch) := by
  unfold upFetchBody
  cases resp.body with
  | none => exact Evolves.refl
  | some body =>
    cases found : box.findMsg (.up resp.uid) with
    | none => exact Evolves.refl
    | some msg => exact upHandleStaticFetchAttr_outcomes plain working finalize sound found resp body epoch

theorem upFetchResp_outcomes (sound : Sound box) (resp : FetchResp) (epoch : Nat)
    (meet : box.findMsg (.up resp.uid) = none → box.findExpunge (.up resp.uid) = none →
      allowed (.meet (.up resp.uid) false)) :
    Outcomes host allowed box (box.upFetchResp host resp epoch) := by
  have body : ∀ next, Evolves host allowed box next →
      Outcomes host allowed next (next.upFetchBody host resp epoch) := fun next evolves =>
    upFetchBody_outcomes plain working finalize (evolves.sound sound) resp epoch
  unfold upFetchResp
  split
  · exact Evolves.refl
  unfold upLookupMsg
  cases found : box.findMsg (.up resp.uid) with
  | none =>
    cases expunged : box.findExpunge (.up resp.uid) with
    | some record => exact Evolves.refl
    | none =>
      have entered : Outcomes host allowed box (box.upNewMsg host resp.uid (resp.flags.getD {})) :=
        upNewMsg_outcomes sound (resp.flags.getD {}) (meet found expunged) found expunged
      refine Outcomes.bind entered fun next _ evolves => ?_
      exact body next evolves
  | some msg =>
    dsimp only
    split
    · exact Evolves.refl
    · rename_i equal
      cases equal
    · rename_i other equal
      rw [Prod.mk.injEq, Option.some.injEq] at equal
      obtain ⟨rfl, -⟩ := equal
      split
      · exact Evolves.refl
      · refine Outcomes.bind ?_ fun next _ evolves => body next evolves
        unfold upFetchFlags
        cases resp.flags with
        | none => exact Evolves.refl
        | some flags => exact upUpdateFlags_outcomes plain working sound found flags

end

end Messages

/-! ### Expunges -/

section Expunges

variable (working : allowed .working)
include working

variable {msg : Msg}

/-- A message that its last holder let go leaves. -/
theorem drop_evolves (sound : Sound box) (mem : msg ∈ box.store.msgs)
    (state : msg.state = .expunged)
    (free : ∀ dn ∈ box.dns, ∀ record, .expunge record ∈ dn.held → record.key ≠ msg.key) :
    Evolves host allowed box (box.removeAndDeleteMsg msg) := by
  refine Evolves.single working (.drop msg msg mem rfl rfl ?_ free ?_)
  · exact sound.keyed.expunged msg mem state
  · rw [state]
    exact nofun

/-- A message without numbers leaves when its key has an expunge. -/
theorem dropUnnumbered_evolves (sound : Sound box) (mem : msg ∈ box.store.msgs)
    (unnumbered : msg.state.numbered = false)
    (has : ∃ record ∈ box.store.expunged, record.key = msg.key) :
    Evolves host allowed box (box.removeAndDeleteMsg msg) := by
  refine Evolves.single working (.drop msg msg mem rfl rfl has ?_ ?_)
  · intro dn inDns record recordMem
    exact sound.free_of_state mem (ne_expunged_of_unnumbered unnumbered) inDns recordMem
  · intro filled
    rw [filled] at unnumbered
    cases unnumbered

variable {record : Expunge}

/-- The expunge of a message is passed on to those who know the message, or the message goes. -/
theorem distributeUpdateExpunge_evolves {start : Box} {old : Msg}
    (distributed : Evolves host allowed start (box.distribute (.expunge record)))
    (startSound : Sound start) (mem : old ∈ box.store.msgs) (state : old.state = .expunged)
    (key : msg.key = old.key) (modseq : msg.modseq = old.modseq) :
    Evolves host allowed start (box.distributeUpdateExpunge record msg) := by
  unfold Box.distributeUpdateExpunge
  split
  · rename_i noDns
    have same : box.distribute (.expunge record) = box := by
      obtain ⟨store, disk, trail, dns⟩ := box
      cases noDns
      rfl
    rw [same] at distributed
    refine distributed.trans (Evolves.single working (.drop msg old mem key modseq ?_ ?_ ?_))
    · rw [key]
      exact (distributed.sound startSound).keyed.expunged old mem state
    · intro dn inDns
      rw [noDns] at inDns
      exact absurd inDns not_mem_nil
    · rw [state]
      exact nofun
  · exact distributed

omit working in
theorem mem_expire (mem : msg ∈ box.store.msgs) :
    { msg with state := .expunged } ∈ (box.expire msg.key).store.msgs :=
  mem_update.mpr (.inr ⟨msg, mem, rfl, rfl⟩)

omit working in
theorem enterExpunge_msgs (box : Box) (record : Expunge) :
    (box.enterExpunge record).store.msgs = box.store.msgs := by
  unfold enterExpunge takeModseq
  split <;> rfl

theorem pushExpunge_known {key : MsgKey} (uidDn : Nat) (found : box.findExpunge key = some record) :
    Evolves host allowed box (box.pushExpunge host key uidDn).1 := by
  have same := find_key found
  subst same
  unfold pushExpunge
  simp only [found]
  split
  · exact Evolves.refl
  · rename_i state
    have unpushed : record.state = .unpushed := by
      cases equal : record.state with
      | pushed => exact absurd equal state
      | unpushed => rfl
    exact Evolves.single working (.push record (find_mem found) unpushed)

omit working in
theorem pushExpunge_apart (sound : Sound box) (mem : msg ∈ box.store.msgs)
    (state : msg.state ≠ .expunged) (found : box.findExpunge msg.key = some record) (uidDn : Nat) :
    box.pushExpunge host msg.key uidDn = (box, record) := by
  have pushed := (sound.pushed_of_apart mem state (find_mem found) (find_key found)).1
  unfold pushExpunge
  simp only [found, pushed, if_true]

omit working in
theorem pushExpunge_new {key : MsgKey} (uidDn : Nat) (fresh : box.findExpunge key = none) :
    box.pushExpunge host key uidDn =
      ((box.enterExpunge (box.newExpunge key uidDn .pushed)).append host
        (.value (.expunge (box.newExpunge key uidDn .pushed))) [], box.newExpunge key uidDn .pushed) := by
  unfold pushExpunge
  simp only [fresh]
  rfl

omit working in
theorem isTwice_of_found {key : MsgKey} (found : box.findMsg key = some msg)
    (filled : msg.state = .filled) (foundExpunge : box.findExpunge key = some record) :
    box.isTwice key = true := by
  unfold isTwice
  rw [found, foundExpunge]
  simp [filled]

theorem deleteMsg_evolves (sound : Sound box) (key : MsgKey)
    (twice : box.isTwice key = true → allowed .twice) :
    Evolves host allowed box (box.deleteMsg host key) := by
  unfold deleteMsg
  cases found : box.findMsg key with
  | none =>
    cases foundExpunge : box.findExpunge key with
    | none => exact Evolves.refl
    | some record => exact pushExpunge_known working _ foundExpunge
  | some msg =>
    have same := find_key found
    subst same
    have mem := find_mem found
    dsimp only
    cases state : msg.state with
    | expunged =>
      dsimp only
      obtain ⟨record, recordMem, sameKey⟩ := sound.keyed.expunged msg mem state
      have foundExpunge : box.findExpunge msg.key = some record :=
        sound.keyed.expungedSorted.find_eq_some.mpr ⟨recordMem, sameKey⟩
      exact pushExpunge_known working _ foundExpunge
    | filled =>
      have notExpunged : msg.state ≠ .expunged := by rw [state]; exact nofun
      dsimp only
      cases foundExpunge : box.findExpunge msg.key with
      | none =>
        rw [pushExpunge_new _ foundExpunge]
        dsimp only
        rw [append_changeMsg]
        have expired : Evolves host allowed box _ :=
          Evolves.single working (.expire msg mem state foundExpunge)
        refine distributeUpdateExpunge_evolves working expired sound ?_ rfl rfl rfl
        rw [(append_spec host _ _ _).trees]
        refine mem_expire ?_
        rw [enterExpunge_msgs]
        exact mem
      | some record =>
        rw [pushExpunge_apart sound mem notExpunged foundExpunge]
        have expired : Evolves host allowed box _ := Evolves.single
          (twice (isTwice_of_found found state foundExpunge))
          (.expireKnown msg record mem state (find_mem foundExpunge) (find_key foundExpunge))
        exact distributeUpdateExpunge_evolves working expired sound (mem_expire mem) rfl rfl rfl
    | unfilled | not4me =>
      have unnumbered : msg.state.numbered = false := by rw [state]; rfl
      dsimp only
      cases foundExpunge : box.findExpunge msg.key with
      | some record =>
        rw [pushExpunge_apart sound mem (ne_expunged_of_unnumbered unnumbered) foundExpunge]
        exact dropUnnumbered_evolves working sound mem unnumbered
          ⟨record, find_mem foundExpunge, find_key foundExpunge⟩
      | none =>
        have zero : msg.uidDn = 0 := by
          by_contra nonzero
          rw [(sound.keyed.msg msg mem).2.mp nonzero] at unnumbered
          cases unnumbered
        rw [pushExpunge_new _ foundExpunge, zero]
        have discarded : Evolves host allowed box _ :=
          Evolves.single working (.discard msg mem unnumbered foundExpunge)
        have appended := append_spec host (box.enterExpunge ⟨msg.key, 0, .pushed, 0⟩)
          (.value (.expunge ⟨msg.key, 0, .pushed, 0⟩)) []
        refine discarded.trans (dropUnnumbered_evolves working (discarded.sound sound) ?_ unnumbered
          ⟨⟨msg.key, 0, .pushed, 0⟩, ?_, rfl⟩)
        · rw [appended.trees]
          exact mem
        · rw [appended.trees]
          exact mem_insert.mpr (.inl rfl)

/-! ### Operations of a `dn_t` -/

theorem storeOne_outcomes (key : MsgKey) (sign : Int) (flags : MsgFlags) :
    Outcomes host allowed box (box.storeOne host key sign flags) := by
  unfold storeOne
  cases found : box.findMsg key with
  | none => exact Evolves.refl
  | some msg =>
    dsimp only
    split
    · unfold localStoreOne
      cases storeFlags sign msg.flags flags with
      | error error => exact Evolves.refl
      | ok stored => exact updateMsgFlags_outcomes working found stored
    · exact Evolves.refl

theorem expungeOne_evolves (sound : Sound box) (key : MsgKey)
    (twice : key.uidUp = 0 → box.isTwice key = true → allowed .twice) :
    Evolves host allowed box (box.expungeOne host key) := by
  unfold expungeOne
  split
  · rename_i isLocal
    exact deleteMsg_evolves working sound key (twice isLocal)
  · exact Evolves.refl

omit working in
theorem freeUpdate_msgs (box : Box) (update : Update) :
    (box.freeUpdate update).store.msgs ⊆ box.store.msgs := by
  unfold freeUpdate removeAndDeleteMsg
  split
  · split
    · split
      · exact Subset.refl _
      · split
        · exact fun msg mem => mem_of_mem_erase mem
        · exact fun msg mem => mem_of_mem_erase mem
    · exact Subset.refl _
  · exact Subset.refl _

/-- An update is freed: the message that it is about waits for its finalizer. -/
theorem freeUpdate_evolves (sound : Sound box) {update : Update}
    (waits : ∀ record, .expunge record = update → ∀ msg ∈ box.store.msgs, msg.key = record.key →
      msg.state = .expunged) :
    Evolves host allowed box (box.freeUpdate update) := by
  cases update with
  | new view | flags view | sync resp => exact Evolves.refl
  | expunge record =>
    simp only [freeUpdate]
    cases found : box.findMsg record.key with
    | none => exact Evolves.refl
    | some msg =>
      dsimp only
      split
      · exact Evolves.refl
      · rename_i unheld
        have mem := find_mem found
        have same := find_key found
        refine drop_evolves working sound mem (waits record rfl msg mem same) ?_
        intro dn inDns other otherMem equal
        refine unheld (any_eq_true.mpr ⟨dn, inDns, holdsExpunge_iff.mpr ⟨other, otherMem, ?_⟩⟩)
        exact equal.trans same

theorem freeUpdates_evolves (sound : Sound box) {updates : List Update}
    (waits : ∀ record, .expunge record ∈ updates → ∀ msg ∈ box.store.msgs, msg.key = record.key →
      msg.state = .expunged) :
    Evolves host allowed box (box.freeUpdates updates) := by
  unfold freeUpdates
  induction updates generalizing box with
  | nil => exact Evolves.refl
  | cons update rest ih =>
    have freed : Evolves host allowed box (box.freeUpdate update) :=
      freeUpdate_evolves working sound fun record equal => waits record (equal ▸ mem_cons_self)
    refine freed.trans (ih (freed.sound sound) fun record mem msg inMsgs => ?_)
    exact waits record (.tail _ mem) msg (freeUpdate_msgs box update inMsgs)

omit working in
theorem Sound.held_waits (sound : Sound box) {dn : Dn} (inDns : dn ∈ box.dns)
    (held : .expunge record ∈ dn.held) (mem : msg ∈ box.store.msgs) (same : msg.key = record.key) :
    msg.state = .expunged := by
  by_contra state
  exact sound.free_of_state mem state inDns held same.symm

theorem closeDn_evolves (sound : Sound box) (id : Nat) :
    Evolves host allowed box (box.closeDn id) := by
  unfold closeDn
  cases found : box.dns.find? (·.id = id) with
  | none => exact Evolves.refl
  | some dn =>
    have inDns := mem_of_find?_eq_some found
    have forgotten : Evolves host allowed box _ := Evolves.single working (.forgetDn id)
    refine forgotten.trans (freeUpdates_evolves working (forgotten.sound sound) ?_)
    exact fun record mem msg inMsgs same => sound.held_waits inDns mem inMsgs same

theorem callDn_evolves (sound : Sound box) (id : Nat) (call : DnCall) :
    Evolves host allowed box (box.callDn id call) := by
  unfold callDn
  cases found : box.dns.find? (·.id = id) with
  | none => exact Evolves.refl
  | some dn =>
    have inDns := mem_of_find?_eq_some found
    dsimp only
    cases result : dn.call call with
    | error error => exact closeDn_evolves working sound id
    | ok triple =>
      obtain ⟨after, responses, freed⟩ := triple
      have called : Evolves host allowed box _ :=
        Evolves.single working (.callDn id dn after call responses freed inDns result)
      refine called.trans (freeUpdates_evolves working (called.sound sound) ?_)
      intro record mem msg inMsgs same
      refine sound.held_waits inDns ?_ inMsgs same
      exact (dn.call_keeps call).of_ok result record (mem_append_right _ mem)

theorem dropAccessors_evolves (sound : Sound box) : Evolves host allowed box box.dropAccessors := by
  unfold dropAccessors
  generalize box.dns.map Dn.id = ids
  induction ids generalizing box with
  | nil => exact Evolves.refl
  | cons id rest ih =>
    have closed : Evolves host allowed box (box.closeDn id) := closeDn_evolves working sound id
    exact closed.trans (ih (closed.sound sound))

end Expunges

/-! ### Local files -/

/-- No `uid_local` in memory is above the counter. -/
structure Locals (box : Box) : Prop where
  msg : ∀ msg ∈ box.store.msgs, msg.key.uidLocal ≤ box.store.hiUidLocal
  expunge : ∀ record ∈ box.store.expunged, record.key.uidLocal ≤ box.store.hiUidLocal

namespace Locals

section

variable (locals : Locals box)

include locals

theorem same (trees : next.store.toTrees = box.store.toTrees)
    (hiUidLocal : next.store.hiUidLocal = box.store.hiUidLocal) : Locals next := by
  constructor
  · rw [trees, hiUidLocal]
    exact locals.msg
  · rw [trees, hiUidLocal]
    exact locals.expunge

theorem append (entry : LogEntry) (assigned : List Assignment) :
    Locals (box.append host entry assigned) :=
  locals.same (append_spec host box entry assigned).trees (append_spec host box entry assigned).hiUidLocal

theorem distribute (update : Update) : Locals (box.distribute update) :=
  ⟨locals.msg, locals.expunge⟩

theorem changeMsg {key : MsgKey} {change : Msg → Msg}
    (msgs : next.store.msgs = update Msg.key key change box.store.msgs)
    (expunged : next.store.expunged = box.store.expunged)
    (hiUidLocal : next.store.hiUidLocal = box.store.hiUidLocal)
    (sameKey : ∀ msg ∈ box.store.msgs, msg.key = key → (change msg).key = msg.key) :
    Locals next := by
  constructor
  · intro msg mem
    rw [msgs] at mem
    rw [hiUidLocal]
    rcases mem_update.mp mem with ⟨mem, -⟩ | ⟨old, oldMem, isKey, rfl⟩
    · exact locals.msg msg mem
    · rw [sameKey old oldMem isKey]
      exact locals.msg old oldMem
  · rw [expunged, hiUidLocal]
    exact locals.expunge

/-- An expunge is entered for the key of a message. -/
theorem enterExpunge {msg : Msg} (mem : msg ∈ box.store.msgs) {record : Expunge}
    (sameKey : record.key = msg.key) (msgs : next.store.msgs ⊆ box.store.msgs)
    (expunged : next.store.expunged = insert Expunge.key record box.store.expunged)
    (hiUidLocal : next.store.hiUidLocal = box.store.hiUidLocal) : Locals next := by
  constructor
  · rw [hiUidLocal]
    exact fun other otherMem => locals.msg other (msgs otherMem)
  · intro other otherMem
    rw [expunged] at otherMem
    rw [hiUidLocal]
    rcases mem_insert.mp otherMem with rfl | otherMem
    · rw [sameKey]
      exact locals.msg msg mem
    · exact locals.expunge other otherMem

theorem removeAndDeleteMsg (msg : Msg) : Locals (box.removeAndDeleteMsg msg) := by
  unfold Box.removeAndDeleteMsg
  split
  · exact ⟨fun other mem => locals.msg other (mem_of_mem_erase mem), locals.expunge⟩
  · exact ⟨fun other mem => locals.msg other (mem_of_mem_erase mem), locals.expunge⟩

theorem takeModseq (uidDn : Nat) : Locals (box.takeModseq uidDn) := by
  unfold Box.takeModseq
  split
  · exact locals
  · exact ⟨locals.msg, locals.expunge⟩

theorem change {kind : ChangeKind} (change : Change host box kind next) : Locals next := by
  have taken : ∀ (msg : Msg) (uidDn : Nat), msg ∈ box.store.msgs →
      msg ∈ (box.takeModseq uidDn).store.msgs := by
    intro msg uidDn mem
    unfold Box.takeModseq
    split
    · exact mem
    · exact mem
  cases change with
  | disk disk cache assigned invalid => exact ⟨locals.msg, locals.expunge⟩
  | himodseqUp himodseqUp =>
    have noted : Locals { box with store := { box.store with himodseqUp } } :=
      ⟨locals.msg, locals.expunge⟩
    exact noted.append _ _
  | takeLocal uidUp =>
    unfold Box.takeLocal
    split
    · exact locals
    · exact ⟨fun msg mem => Nat.le_succ_of_le (locals.msg msg mem),
        fun record mem => Nat.le_succ_of_le (locals.expunge record mem)⟩
  | meet key internaldate flags fresh unseen apart keyLocals =>
    have inserted : Locals (box.insertMsg (.unfilled key internaldate flags)) := by
      refine ⟨fun msg mem => ?_, locals.expunge⟩
      rcases mem_insert.mp mem with rfl | mem
      · exact keyLocals
      · exact locals.msg msg mem
    exact inserted.append _ _
  | edit key change edits unseen =>
    exact locals.changeMsg rfl rfl rfl fun msg mem same => (edits msg mem same).key
  | save msg mem unnumbered => exact locals.append _ _
  | finalize msg mem unnumbered =>
    have changed : Locals (box.finalizeMsg msg.key) := locals.changeMsg rfl rfl rfl fun _ _ _ => rfl
    exact (changed.append _ _).distribute _
  | bump msg flags mem numbered =>
    have changed : Locals (box.bumpFlags msg flags) := locals.changeMsg rfl rfl rfl fun _ _ _ => rfl
    exact (changed.append _ _).distribute _
  | push record mem unpushed =>
    have marked : Locals (box.markPushed record.key) := by
      refine ⟨locals.msg, fun other otherMem => ?_⟩
      rcases mem_update.mp otherMem with ⟨otherMem, -⟩ | ⟨old, oldMem, -, rfl⟩
      · exact locals.expunge other otherMem
      · exact locals.expunge old oldMem
    exact marked.append _ _
  | discard msg mem unnumbered fresh =>
    have entered : Locals (box.enterExpunge ⟨msg.key, 0, .pushed, 0⟩) :=
      locals.enterExpunge mem rfl (Subset.refl _) rfl rfl
    exact entered.append _ _
  | expire msg mem filled fresh =>
    have entered : Locals (box.enterExpunge (box.newExpunge msg.key msg.uidDn .pushed)) :=
      (locals.takeModseq msg.uidDn).enterExpunge (taken msg msg.uidDn mem) rfl
        (Subset.refl _) rfl rfl
    have expired : Locals ((box.enterExpunge (box.newExpunge msg.key msg.uidDn .pushed)).expire
        msg.key) := entered.changeMsg rfl rfl rfl fun _ _ _ => rfl
    exact (expired.append _ _).distribute _
  | expireKnown msg record mem filled recordMem same =>
    have expired : Locals (box.expire msg.key) := locals.changeMsg rfl rfl rfl fun _ _ _ => rfl
    exact expired.distribute _
  | drop msg old mem key modseq has free state => exact locals.removeAndDeleteMsg msg
  | missing msg mem filled fresh noDns =>
    have lost : Locals (((box.takeModseq msg.uidDn).insertExpunge
        (box.newExpunge msg.key msg.uidDn .unpushed)).dropMsg msg) :=
      (locals.takeModseq msg.uidDn).enterExpunge (taken msg msg.uidDn mem) rfl
        (fun _ mem => mem_of_mem_erase mem) rfl rfl
    exact lost.append _ _
  | openDn id examine full => exact ⟨locals.msg, locals.expunge⟩
  | forgetDn id => exact ⟨locals.msg, locals.expunge⟩
  | callDn id dn after call responses freed mem result => exact ⟨locals.msg, locals.expunge⟩
  | syncDn id resp => exact ⟨locals.msg, locals.expunge⟩

end

end Locals

/-- The message with a key was never downloaded. -/
def NeverFilled (box : Box) (key : MsgKey) : Prop :=
  (∀ msg ∈ box.store.msgs, msg.key = key → msg.uidDn = 0) ∧
    (∀ record ∈ box.store.expunged, record.key = key → record.uidDn = 0) ∧
      ∀ line ∈ cacheValues box.disk.cache, line.key = key → line.uidDn = 0

instance (box : Box) (key : MsgKey) : Decidable (box.NeverFilled key) :=
  inferInstanceAs (Decidable (_ ∧ _ ∧ _))

/-- A new `uid_local` was never used. -/
theorem Locals.neverFilled (locals : Locals box) (sound : Sound box) :
    box.findMsg (.ofLocal (box.store.hiUidLocal + 1)) = none ∧
      box.findExpunge (.ofLocal (box.store.hiUidLocal + 1)) = none ∧
        box.NeverFilled (.ofLocal (box.store.hiUidLocal + 1)) := by
  have noMsg : ∀ msg ∈ box.store.msgs, msg.key ≠ .ofLocal (box.store.hiUidLocal + 1) := by
    intro msg mem same
    have below := locals.msg msg mem
    rw [same] at below
    exact absurd below (Nat.not_succ_le_self _)
  have noExpunge : ∀ record ∈ box.store.expunged,
      record.key ≠ .ofLocal (box.store.hiUidLocal + 1) := by
    intro record mem same
    have below := locals.expunge record mem
    rw [same] at below
    exact absurd below (Nat.not_succ_le_self _)
  refine ⟨find_eq_none.mpr noMsg, find_eq_none.mpr noExpunge, ?_, ?_, ?_⟩
  · exact fun msg mem same => absurd same (noMsg msg mem)
  · exact fun record mem same => absurd same (noExpunge record mem)
  · intro line mem same
    rw [← (sound.log.valid line mem).modseq_eq_zero]
    exact sound.ledger.line_eq_zero noMsg noExpunge mem same

section AddLocalFile

variable (plain : allowed .plain) (working : allowed .working)
include plain working

omit plain in
/-- A message without numbers is saved, and is still there. -/
theorem updateMsg_saved (host : Host) {key : MsgKey} {msg : Msg} (found : box.findMsg key = some msg)
    (unnumbered : msg.state.numbered = false) :
    ∃ next, box.updateMsg host msg = .ok next ∧ Evolves host allowed box next ∧
      next.findMsg key = some msg := by
  have result : box.updateMsg host msg = .ok (box.append host (.value (.message msg.logged)) []) :=
    if_neg (ne_expunged_of_unnumbered unnumbered)
  refine ⟨_, result, (updateMsg_outcomes working found unnumbered).of_ok result, ?_⟩
  unfold findMsg
  rw [(append_spec host _ _ _).trees]
  exact found

/-- The metadata of a local file is in memory and in the log. -/
theorem acceptLocal_saved (host : Host) (sound : Sound box) {key : MsgKey} (internaldate : ImapTime)
    (flags : MsgFlags)
    (meet : box.findMsg key = none → allowed (.meet key (box.findExpunge key).isSome))
    (locals : key.uidLocal ≤ box.store.hiUidLocal) (never : box.NeverFilled key) :
    ∃ next msg, (box.acceptLocal key internaldate flags).saveMsg host key = .ok next ∧
      Evolves host allowed box next ∧ next.findMsg key = some msg ∧ msg.state.numbered = false := by
  unfold acceptLocal saveMsg
  cases found : box.findMsg key with
  | some msg =>
    have unnumbered : msg.state.numbered = false := by
      have zero := never.1 msg (find_mem found) (find_key found)
      have numbers := (sound.keyed.msg msg (find_mem found)).2
      rw [← Bool.not_eq_true, ← numbers]
      exact not_not_intro zero
    have edited : Evolves host allowed box (box.changeMsg key fun msg => { msg with internaldate }) :=
      edit_evolves plain sound found ⟨rfl, rfl, rfl, rfl, Iff.rfl, id⟩ (.inr unnumbered)
    have editedFound : (box.changeMsg key fun msg => { msg with internaldate }).findMsg key =
        some { msg with internaldate } := findMsg_changeMsg found fun _ => rfl
    simp only [editedFound]
    obtain ⟨next, result, evolves, nextFound⟩ := updateMsg_saved working host editedFound unnumbered
    exact ⟨next, _, result, edited.trans evolves, nextFound, unnumbered⟩
  | none =>
    have inserted : (box.insertMsg (.unfilled key internaldate flags)).findMsg key =
        some (.unfilled key internaldate flags) := by
      have fresh : ∀ other ∈ box.store.msgs,
          other.key ≠ (Msg.unfilled key internaldate flags).key := find_eq_none.mp found
      exact (sound.keyed.msgsSorted.find_insert fresh key).trans (if_pos rfl)
    simp only [inserted]
    have result : (box.insertMsg (.unfilled key internaldate flags)).updateMsg host
        (.unfilled key internaldate flags) = .ok ((box.insertMsg (.unfilled key internaldate flags)
          ).append host (.value (.message (.unfilled key internaldate flags))) []) := if_neg nofun
    refine ⟨_, .unfilled key internaldate flags, result, ?_, ?_, rfl⟩
    · exact Evolves.single (meet found) (.meet key internaldate flags found never.2.2 never.2.1 locals)
    · unfold findMsg
      rw [(append_spec host _ _ _).trees]
      exact inserted

theorem addLocalFile_outcomes (finalize : allowed (.finalize true)) (sound : Sound box) (locals : Locals box)
    (uidUp length : Nat) (internaldate : ImapTime) (flags : MsgFlags) (epoch : Nat)
    (meet : box.findMsg (box.localKey uidUp) = none →
      allowed (.meet (box.localKey uidUp) (box.findExpunge (box.localKey uidUp)).isSome))
    (never : 0 < uidUp → box.NeverFilled (.up uidUp)) :
    Outcomes host allowed box (box.addLocalFile host uidUp length internaldate flags epoch) := by
  have taken : Evolves host allowed box (box.takeLocal uidUp) :=
    Evolves.single working (.takeLocal uidUp)
  have takenSound := taken.sound sound
  -- the key was never used, or never downloaded
  have facts : ((box.localKey uidUp).uidLocal ≤ (box.takeLocal uidUp).store.hiUidLocal) ∧
      (box.takeLocal uidUp).NeverFilled (box.localKey uidUp) := by
    unfold localKey takeLocal
    split
    · rename_i positive
      exact ⟨Nat.zero_le _, never positive⟩
    · exact ⟨le_rfl, (locals.neverFilled sound).2.2⟩
  obtain ⟨keyLocals, keyNever⟩ := facts
  have sameTrees : (box.takeLocal uidUp).store.toTrees = box.store.toTrees := by
    unfold takeLocal
    split <;> rfl
  have keyMeet : (box.takeLocal uidUp).findMsg (box.localKey uidUp) = none →
      allowed (.meet (box.localKey uidUp)
        ((box.takeLocal uidUp).findExpunge (box.localKey uidUp)).isSome) := by
    unfold findMsg findExpunge
    rw [sameTrees]
    exact meet
  obtain ⟨next, msg, result, evolves, found, unnumbered⟩ :=
    acceptLocal_saved plain working host takenSound internaldate flags keyMeet keyLocals keyNever
  have nextSound := evolves.sound takenSound
  refine Outcomes.of_evolves taken ?_
  show Outcomes host allowed _ (((box.takeLocal uidUp).acceptLocal (box.localKey uidUp) internaldate
    flags).saveMsg host (box.localKey uidUp) >>= fun box' => _)
  rw [result]
  refine Outcomes.of_evolves evolves ?_
  show Outcomes host allowed next (next.handleNewMsgFile host (box.localKey uidUp) length epoch >>=
    fun placed => _)
  refine Outcomes.bind (handleNewMsgFile_outcomes plain nextSound found unnumbered length epoch) ?_
  intro placed placedResult _
  obtain ⟨file, placedFound⟩ := handleNewMsgFile_found found placedResult
  exact finalize_evolves placedFound unnumbered finalize

end AddLocalFile

/-! ### Operations -/

/-- The condition on adding a local file: its message was never downloaded. -/
def Offers (box : Box) : Operation → Prop
  | .addLocalFile uidUp _ _ _ _ => 0 < uidUp → box.NeverFilled (.up uidUp)
  | _ => True

instance (box : Box) (operation : Operation) : Decidable (box.Offers operation) :=
  match operation with
  | .addLocalFile .. => inferInstanceAs (Decidable (_ → _))
  | .fetchResp .. | .vanished _ | .checkUidvldUp .. | .setHimodseqUp _ | .storeOne .. | .expungeOne _
  | .openDn .. | .closeDn _ | .callDn .. | .syncDn .. => isTrue trivial

/-- The key of the message that the operation may enter: one that there is no message for. A response
of the server enters none whose key has an expunge. -/
def meets (box : Box) : Operation → Option MsgKey
  | .fetchResp resp _ =>
    if (box.findMsg (.up resp.uid)).isNone && (box.findExpunge (.up resp.uid)).isNone then
      some (.up resp.uid)
    else none
  | .addLocalFile uidUp _ _ _ _ =>
    if (box.findMsg (box.localKey uidUp)).isNone then some (box.localKey uidUp) else none
  | _ => none

/-- Every operation other than a check of the UIDVALIDITY is made of changes. -/
theorem run_outcomes (plain : allowed .plain) (working : allowed .working)
    (finalize : allowed (.finalize true)) (sound : Sound box)
    (locals : Locals box) {operation : Operation} (keepsCache : operation.keepsCache = true)
    (offers : box.Offers operation) (full : box.store.lite = false ∨ operation.isAddLocal = true)
    (meet : ∀ key, box.meets operation = some key → allowed (.meet key (box.findExpunge key).isSome))
    (twice : ∀ key, operation.expires = some key → box.isTwice key = true → allowed .twice) :
    Outcomes host allowed box (operation.run host box) := by
  cases operation with
  | fetchResp resp epoch =>
    refine upFetchResp_outcomes plain working finalize sound resp epoch fun noMsg noExpunge => ?_
    have allowedMeet := meet (.up resp.uid) (by simp [meets, noMsg, noExpunge])
    rw [noExpunge] at allowedMeet
    exact allowedMeet
  | vanished uidUp => exact deleteMsg_evolves working sound (.up uidUp) (twice _ rfl)
  | checkUidvldUp uidvldUp now => cases keepsCache
  | setHimodseqUp himodseqUp => exact Evolves.single working (.himodseqUp himodseqUp)
  | addLocalFile uidUp length internaldate flags epoch =>
    exact addLocalFile_outcomes plain working finalize sound locals uidUp length internaldate flags epoch
      (fun noMsg => meet _ (by simp [meets, noMsg])) offers
  | storeOne key sign flags => exact storeOne_outcomes working key sign flags
  | expungeOne key =>
    exact expungeOne_evolves working sound key fun isLocal => twice key (if_pos isLocal)
  | openDn id examine =>
    show Evolves host allowed box (box.openDn id examine)
    unfold Box.openDn
    split
    · exact Evolves.refl
    · exact Evolves.single working (.openDn id examine (full.resolve_right nofun))
  | closeDn id => exact closeDn_evolves working sound id
  | callDn id call => exact callDn_evolves working sound id call
  | syncDn id resp => exact Evolves.single working (.syncDn id resp)

end Box

end Splintermail
