/-
This file is the data model of `msg.h`: message keys, flags and dates, the
message, its expunge, the entry of either in the index by modification sequence,
the view of a message that an accessor holds, and the updates that are passed to
accessors.

The trees of an `imaildir_t` are keyed by message key, the index `mods` by
modification sequence. A node of `mods` is embedded in the structure it belongs
to; here it is the number together with the key of that structure.
-/

import Mathlib.Data.Prod.Lex
import Splintermail.Lib.Tree
import Splintermail.Dstr.Text

namespace Splintermail

/-! ### Keys -/

/-- `msg_key_t`: only one of the two is nonzero. -/
structure MsgKey where
  uidUp : Nat
  uidLocal : Nat
  deriving DecidableEq, Repr

namespace MsgKey

/-- `KEY_UP` -/
def up (uidUp : Nat) : MsgKey := ⟨uidUp, 0⟩

/-- `KEY_LOCAL` -/
def ofLocal (uidLocal : Nat) : MsgKey := ⟨0, uidLocal⟩

/-- The pair that `jsw_cmp_msg_key` compares. -/
def toPair (key : MsgKey) : Lex (Nat × Nat) := toLex (key.uidUp, key.uidLocal)

theorem toPair_injective : Function.Injective toPair := by
  rintro ⟨up, uidLocal⟩ ⟨otherUp, otherLocal⟩ same
  have parts := Prod.mk.inj (toLex.injective same)
  rw [MsgKey.mk.injEq]
  exact parts

instance : LinearOrder MsgKey := LinearOrder.lift' toPair toPair_injective

/-- Both numbers fit an `unsigned int`. -/
def Fits (key : MsgKey) : Prop := key.uidUp ≤ uintMax ∧ key.uidLocal ≤ uintMax

instance (key : MsgKey) : Decidable key.Fits := inferInstanceAs (Decidable (_ ∧ _))

end MsgKey

/-! ### Flags and dates -/

/-- `msg_flags_t` -/
structure MsgFlags where
  answered : Bool := false
  flagged : Bool := false
  seen : Bool := false
  draft : Bool := false
  deleted : Bool := false
  deriving DecidableEq, Repr

/-- Apply a Boolean operation flag by flag. -/
def MsgFlags.zipWith (operation : Bool → Bool → Bool) (first second : MsgFlags) : MsgFlags where
  answered := operation first.answered second.answered
  flagged := operation first.flagged second.flagged
  seen := operation first.seen second.seen
  draft := operation first.draft second.draft
  deleted := operation first.deleted second.deleted

/-- `msg_flags_or` -/
def MsgFlags.or (first second : MsgFlags) : MsgFlags := zipWith Bool.or first second

/-- `msg_flags_and` with the `msg_flags_not` of the second. -/
def MsgFlags.andNot (first second : MsgFlags) : MsgFlags :=
  zipWith (fun left right => left && !right) first second

/-- `imap_time_t` -/
structure ImapTime where
  year : Int32 := 0
  month : Int32 := 0
  day : Int32 := 0
  hour : Int32 := 0
  min : Int32 := 0
  sec : Int32 := 0
  zHour : Int32 := 0
  zMin : Int32 := 0
  deriving DecidableEq

/-! ### Messages and expunges -/

/-- `msg_state_e` -/
inductive MsgState where
  | unfilled
  | filled
  | expunged
  | not4me
  deriving DecidableEq, Repr

/-- The subdirectories of a maildir that hold messages. -/
inductive Subdir where
  | cur
  | new
  deriving DecidableEq, Repr

/-- A message file: its subdirectory and what its name tells. A file whose name does not parse
is skipped by the start-up code and is not modelled. -/
structure MailFile where
  subdir : Subdir
  epoch : Nat
  key : MsgKey
  length : Nat
  host : Text
  deriving DecidableEq, Repr

/-- `msg_t`. The subdirectory and the filename are the file the message was given, if any. -/
structure Msg where
  key : MsgKey
  uidDn : Nat
  length : Nat := 0
  internaldate : ImapTime
  flags : MsgFlags
  modseq : Nat
  state : MsgState
  file : Option MailFile := none
  deriving DecidableEq

/-- `msg_expunge_state_e` -/
inductive ExpungeState where
  | unpushed
  | pushed
  deriving DecidableEq, Repr

/-- `msg_expunge_t` -/
structure Expunge where
  key : MsgKey
  uidDn : Nat
  state : ExpungeState
  modseq : Nat
  deriving DecidableEq, Repr

/-- The structure that a `msg_mod_t` is embedded in. -/
inductive ModOwner where
  | message (key : MsgKey)
  | expunge (key : MsgKey)
  deriving DecidableEq, Repr

/-- `msg_mod_t` -/
structure Mod where
  modseq : Nat
  owner : ModOwner
  deriving DecidableEq, Repr

def Msg.mod (msg : Msg) : Mod := ⟨msg.modseq, .message msg.key⟩

def Expunge.mod (expunge : Expunge) : Mod := ⟨expunge.modseq, .expunge expunge.key⟩

/-- The key of the structure. -/
def ModOwner.key : ModOwner → MsgKey
  | .message key => key
  | .expunge key => key

/-- The three trees of an `imaildir_t`: messages and expunges by key, and both by modification
sequence. -/
structure Trees where
  msgs : List Msg := []
  expunged : List Expunge := []
  mods : List Mod := []
  deriving DecidableEq

/-! ### Views and updates -/

/-- `msg_view_t` -/
structure MsgView where
  key : MsgKey
  uidDn : Nat
  length : Nat
  internaldate : ImapTime
  flags : MsgFlags
  deriving DecidableEq

/-- `msg_view_new` -/
def Msg.view (msg : Msg) : MsgView :=
  ⟨msg.key, msg.uidDn, msg.length, msg.internaldate, msg.flags⟩

/-- `ie_status_t`, as far as tagged responses use it. -/
inductive Status where
  | ok
  | no
  | bad
  deriving DecidableEq, Repr

/-- `ie_status_to_dstr` -/
def Status.toString : Status → String
  | .ok => "OK"
  | .no => "NO"
  | .bad => "BAD"

/-- `ie_st_resp_t`: the status and the text that are passed on. -/
structure StResp where
  status : Status
  text : String
  deriving DecidableEq, Repr

/-- `update_t`. An expunge update holds a reference to the old message with its key; a sync
update has a response only if the request failed. -/
inductive Update where
  | new (view : MsgView)
  | flags (view : MsgView)
  | expunge (record : Expunge)
  | sync (resp : Option StResp)
  deriving DecidableEq

/-- The key of the message that an expunge update is about. -/
def Update.expungedKey : Update → Option MsgKey
  | .expunge record => some record.key
  | _ => none

/-- The response of a sync update. -/
def Update.syncResp : Update → Option (Option StResp)
  | .sync resp => some resp
  | _ => none

end Splintermail
