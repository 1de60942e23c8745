/-
This file is the system of a `dn_t` and its client: the client that applies the
untagged responses, the events of a session, and the updates that an `imaildir_t`
distributes to it.

The client starts from the SELECT response and applies every response in order. It
knows the messages by their positions only, so that it agrees with the `dn_t` as
long as its list of uids is the list of uids of the views.
-/

import Mathlib.Algebra.Order.Group.Multiset
import Splintermail.Imaildir.Dn

namespace Splintermail

/-! ### The client -/

/-- The uids of the views, by sequence number. -/
def viewUids (views : List MsgView) : List Nat := views.map MsgView.uidDn

/-- What ends a session: an error of the `dn_t`, or a response that names a message the client
does not have. -/
inductive SessionFault where
  | failed (error : Derr)
  | outOfRange (response : Response)
  deriving DecidableEq

/-- The client applies one response. EXISTS tells how many messages there are; the uids of the
new ones are those of the mailbox. -/
def clientApply (mailbox client : List Nat) : Response → Except SessionFault (List Nat)
  | .exists count => .ok (client ++ (mailbox.take count).drop client.length)
  | .expunge seqNum =>
    if 1 ≤ seqNum ∧ seqNum ≤ client.length then .ok (client.eraseIdx (seqNum - 1))
    else .error (.outOfRange (.expunge seqNum))
  | .fetch seqNum flags uid =>
    if 1 ≤ seqNum ∧ seqNum ≤ client.length then .ok client
    else .error (.outOfRange (.fetch seqNum flags uid))

/-- The client applies responses in order. -/
def clientApplyAll (mailbox : List Nat) : List Nat → List Response → Except SessionFault (List Nat)
  | client, [] => .ok client
  | client, response :: rest => do
    let client ← clientApply mailbox client response
    clientApplyAll mailbox client rest

/-- The SELECT response leaves the client with the uids of the views. -/
structure Session where
  dn : Dn
  client : List Nat
  deriving DecidableEq

/-- What happens to a session: the `imaildir_t` passes an update, or the `server_t` calls. -/
inductive SessionEvent where
  | update (update : Update)
  | call (call : DnCall)
  deriving DecidableEq

namespace Session

/-- The responses of the `dn_t` are applied by the client. -/
def answer (session : Session) (result : Except Derr (Dn × List Response × List Update)) :
    Except SessionFault Session :=
  match result with
  | .error error => .error (.failed error)
  | .ok (dn, responses, _) => do
    let client ← clientApplyAll (viewUids dn.views) session.client responses
    return { dn, client }

def step (session : Session) : SessionEvent → Except SessionFault Session
  | .update update => .ok { session with dn := dnImaildirUpdate session.dn update }
  | .call call => session.answer (session.dn.call call)

/-- The session after a SELECT with the given views. -/
def select (views : List MsgView) : Session :=
  { dn := { id := 0, examine := false, views }, client := viewUids views }

end Session

/-! ### The updates of an `imaildir_t` -/

/-- The uid of a new message. -/
def Update.newUid : Update → Option Nat
  | .new view => some view.uidDn
  | _ => none

/-- The uid of an expunged message. -/
def Update.expungedUid : Update → Option Nat
  | .expunge record => some record.uidDn
  | _ => none

/-- The uids that are left when an update is accounted for. -/
def settle (live : Multiset Nat) : Update → Multiset Nat
  | .new view => view.uidDn ::ₘ live
  | .expunge record => live.erase record.uidDn
  | _ => live

/-- The uids of the views without those whose expunge is already gathered. -/
def Dn.settled (dn : Dn) : Multiset Nat :=
  (viewUids dn.views : Multiset Nat) - (dn.gathered.expunges : Multiset Nat)

/-- The uids that are left when all pending updates are accounted for: the messages whose expunge
was not distributed yet. -/
def Dn.live (dn : Dn) : Multiset Nat := dn.pending.foldl settle dn.settled

/-- The command waits for a sync update. -/
def Command.waits : Command → Bool
  | .store cmd => !cmd.synced
  | .expunge cmd => !cmd.synced
  | .copy cmd => !cmd.synced
  | .disconnect cmd => !cmd.synced
  | .fetch cmd => !cmd.synced && cmd.ready.isNone

/-- The sync update of the command is pending. -/
def Command.synced : Command → Bool
  | .store cmd => cmd.synced
  | .expunge cmd => cmd.synced
  | .copy cmd => cmd.synced
  | .disconnect cmd => cmd.synced
  | .fetch cmd => cmd.synced && !cmd.syncProcessed

/-- The updates that an `imaildir_t` distributes: `uid_dn` values are handed out in increasing
order, an expunge is distributed once for each message that was distributed before, and a sync
update answers a request of the `dn_t`. -/
def Dn.Distributes (dn : Dn) : Update → Prop
  | .new view =>
    (∀ uidDn ∈ viewUids dn.views, uidDn < view.uidDn) ∧
      ∀ uidDn ∈ dn.pending.filterMap Update.newUid, uidDn < view.uidDn
  | .flags _ => True
  | .expunge record => record.uidDn ∈ dn.live
  | .sync _ => dn.command.map Command.waits = some true

/-- No message both arrives and is expunged in the next batch. -/
def Dn.Separate (dn : Dn) : Prop :=
  ∀ uidDn ∈ (splitSync dn.pending).1.filterMap Update.newUid,
    uidDn ∉ (splitSync dn.pending).1.filterMap Update.expungedUid

/-- The next call for the command gathers a batch with its expunges. -/
def Command.takesExpunges : Command → Bool
  | .store cmd => cmd.synced && cmd.uidMode
  | .expunge cmd => cmd.synced
  | .copy cmd => cmd.synced
  | .disconnect _ => false
  | .fetch cmd => cmd.synced && !cmd.syncProcessed && cmd.uidMode

/-- The call gathers a batch with its expunges. -/
def Dn.takesExpunges (dn : Dn) : DnCall → Bool
  | .gather allowExpunge _ => dn.command.isNone && allowExpunge
  | .fetchBegin uidMode _ _ _ peek => dn.command.isNone && peek && uidMode
  | .advance => dn.command.any Command.takesExpunges
  | _ => false

instance (dn : Dn) (update : Update) : Decidable (dn.Distributes update) :=
  match update with
  | .new _ => inferInstanceAs (Decidable (_ ∧ _))
  | .flags _ => isTrue trivial
  | .expunge _ => inferInstanceAs (Decidable (_ ∈ _))
  | .sync _ => inferInstanceAs (Decidable (_ = _))

instance (dn : Dn) : Decidable dn.Separate := inferInstanceAs (Decidable (∀ _ ∈ _, _))

/-- What can happen to a session: the updates are those that an `imaildir_t` distributes. -/
def Session.Offered (session : Session) : SessionEvent → Prop
  | .update update => session.dn.Distributes update
  | .call _ => True

instance (session : Session) (event : SessionEvent) : Decidable (session.Offered event) :=
  match event with
  | .update update => inferInstanceAs (Decidable (session.dn.Distributes update))
  | .call _ => isTrue trivial

/-- The condition on a step: no batch that is gathered with its expunges holds both the arrival and
the expunge of a message. -/
def Session.Meets (session : Session) : SessionEvent → Prop
  | .update update => session.dn.Distributes update
  | .call call => session.dn.takesExpunges call = true → session.dn.Separate

instance (session : Session) (event : SessionEvent) : Decidable (session.Meets event) :=
  match event with
  | .update update => inferInstanceAs (Decidable (session.dn.Distributes update))
  | .call _ => inferInstanceAs (Decidable (_ → _))

end Splintermail
