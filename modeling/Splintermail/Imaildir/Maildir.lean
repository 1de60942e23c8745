/-
This file is the system of a mailbox over its whole life: an `imaildir_t` is opened
on a disk, its operations are called in any order, it is closed, and it may crash
at any point of any of these and be opened again.

A crash leaves the disk as it was before the interrupted action or after one of
its writes. An operation that fails leaves an `imaildir_t` that its accessors do not
use again; only adding a local file may fail without this.
-/

import Splintermail.Imaildir.Box
import Splintermail.Lib.Run

namespace Splintermail

/-- The operations on an open mailbox. -/
inductive Operation where
  | fetchResp (resp : Box.FetchResp) (epoch : Nat)
  | vanished (uidUp : Nat)
  | checkUidvldUp (uidvldUp now : Nat)
  | setHimodseqUp (himodseqUp : Nat)
  | addLocalFile (uidUp length : Nat) (internaldate : ImapTime) (flags : MsgFlags) (epoch : Nat)
  | storeOne (key : MsgKey) (sign : Int) (flags : MsgFlags)
  | expungeOne (key : MsgKey)
  | openDn (id : Nat) (examine : Bool)
  | closeDn (id : Nat)
  | callDn (id : Nat) (call : DnCall)
  | syncDn (id : Nat) (resp : Option StResp)
  deriving DecidableEq

/-- Adding a local file is all that a lite `imaildir_t` is used for. -/
def Operation.isAddLocal : Operation → Bool
  | .addLocalFile .. => true
  | _ => false

def Operation.run (host : Host) (box : Box) : Operation → Except Failure Box
  | .fetchResp resp epoch => box.upFetchResp host resp epoch
  | .vanished uidUp => .ok (box.deleteMsg host (.up uidUp))
  | .checkUidvldUp uidvldUp now => box.upCheckUidvldUp host uidvldUp now
  | .setHimodseqUp himodseqUp => .ok (box.setHimodseqUp host himodseqUp)
  | .addLocalFile uidUp length internaldate flags epoch =>
    box.addLocalFile host uidUp length internaldate flags epoch
  | .storeOne key sign flags => box.storeOne host key sign flags
  | .expungeOne key => .ok (box.expungeOne host key)
  | .openDn id examine => .ok (box.openDn id examine)
  | .closeDn id => .ok (box.closeDn id)
  | .callDn id call => .ok (box.callDn id call)
  | .syncDn id resp => .ok (box.syncDn id resp)

/-- The mailbox on disk, open or not. -/
inductive Maildir where
  | closed (disk : Disk)
  | opened (box : Box)
  deriving DecidableEq

/-- What is done to a mailbox. -/
inductive Action where
  | init (lite : Bool)
  | operation (operation : Operation)
  | close (rmOnClose : Bool)
  deriving DecidableEq

/-- An action is done, or the process dies before it or after a number of its writes. -/
inductive MaildirEvent where
  | act (action : Action)
  | crash (action : Action) (writes : Nat)
  deriving DecidableEq

/-- The finalizers of the messages that a dropped cache held use them after they are freed. -/
inductive MaildirFault where
  | useAfterFree
  deriving DecidableEq

namespace Box

/-- The accessors are told to let go, and free their updates. -/
def dropAccessors (box : Box) : Box := (box.dns.map Dn.id).foldl closeDn box

/-- Some connection has an expunge update. -/
def holdsOld (box : Box) : Bool :=
  box.dns.any fun dn => (dn.pending ++ dn.gathered.updatesToFree).any fun update =>
    update.expungedKey.isSome

/-- The cache is dropped while an expunged message waits for its finalizer. -/
def dangles (box : Box) : Operation → Bool
  | .checkUidvldUp uidvldUp _ =>
    box.store.uidvldUp ≠ uidvldUp && box.store.uidvldUp ≠ 0 && box.holdsOld
  | _ => false

end Box

namespace Maildir

/-- An operation that failed. -/
def failed (operation : Operation) (box : Box) : Maildir × List Disk :=
  if operation.isAddLocal then (.opened { box with trail := [] }, box.trail)
  else (.closed box.dropAccessors.disk, box.dropAccessors.trail)

/-- The mailbox after an action, and the disks that the action wrote. -/
def act (host : Host) (state : Maildir) (action : Action) : Maildir × List Disk :=
  match state, action with
  | .closed disk, .init lite =>
    match Box.init host disk lite with
    | .ok box => (.opened { box with trail := [] }, box.trail)
    | .error (_, box) => (.closed box.disk, box.trail)
  | .opened box, .operation operation =>
    if box.store.lite && !operation.isAddLocal then (.opened box, [])
    else
      match operation.run host box with
      | .ok box => (.opened { box with trail := [] }, box.trail)
      | .error (_, box) => failed operation box
  | .opened box, .close rmOnClose =>
    let box := box.dropAccessors.free rmOnClose
    (.closed box.disk, box.trail)
  | state, _ => (state, [])

/-- The disk of a mailbox. -/
def disk : Maildir → Disk
  | .closed disk => disk
  | .opened box => box.disk

/-- The action frees messages that finalizers still refer to. -/
def dangles : Maildir → Action → Bool
  | .opened box, .operation operation => !box.store.lite && box.dangles operation
  | _, _ => false

def step (host : Host) (state : Maildir) : MaildirEvent → Except MaildirFault Maildir
  | .act action =>
    if state.dangles action then .error .useAfterFree else .ok (state.act host action).1
  | .crash action writes =>
    .ok (.closed ((state.disk :: (state.act host action).2).getD writes state.disk))

/-- The condition on an event that no message is freed while a connection has an expunge update
that refers to it. -/
def Spares (state : Maildir) : MaildirEvent → Prop
  | .act action => state.dangles action = false
  | .crash _ _ => True

instance (state : Maildir) (event : MaildirEvent) : Decidable (state.Spares event) :=
  match event with
  | .act action => inferInstanceAs (Decidable (state.dangles action = false))
  | .crash _ _ => isTrue trivial

theorem Spares.faultless {host : Host} {state : Maildir} {event : MaildirEvent}
    (spares : state.Spares event) :
    Outcome.Sat (state.step host event) (fun _ => True) fun _ => False := by
  cases event with
  | act action =>
    have spared : state.dangles action = false := spares
    unfold step
    dsimp only
    rw [if_neg (by rw [spared]; exact Bool.false_ne_true)]
    trivial
  | crash action writes => trivial

end Maildir

end Splintermail
