/-
This file models the syntax trees of `expression.h` that commands and the responses which
are copied are made of.

A chain of structs is the list of them, and the null pointer that ends it is the empty list:
so a string that is there is a list of one. Where a pointer of the source is a member of a
union, the tree is an inductive type with one constructor for each tag of the union.
-/

import Splintermail.Dstr.Find
import Splintermail.Imaildir.Message

namespace Splintermail

/-! ### Strings and mailboxes -/

/-- `ie_dstr_t` -/
abbrev IeDstr := List Bytes

/-- The bytes of a string that is there. -/
def ieDstrText (dstr : IeDstr) : Bytes := dstr.headD []

/-- `dstr_ieq` -/
def dstrIeq (first second : Bytes) : Bool :=
  first.length = second.length && dstrIcmp2 first second = 0

/-- What `ie_mailbox_new_noninbox` makes of a name, where `none` is the inbox. -/
def noninboxName (name : Bytes) : Option Bytes :=
  if dstrIeq name (ascii "inbox") then none
  else if dstrIeq (name.take 6) (ascii "inbox/") then some (ascii "INBOX" ++ name.drop 5)
  else some name

theorem noninboxName_noninboxName {name normal : Bytes} (made : noninboxName name = some normal) :
    noninboxName normal = some normal := by
  unfold noninboxName at made
  split at made
  · cases made
  · next other =>
    split at made
    · next below =>
      cases made
      have length : (name.take 6).length = 6 :=
        of_decide_eq_true (Bool.and_eq_true_iff.mp below).1
      rw [List.length_take] at length
      have longer : ¬ dstrIeq (ascii "INBOX" ++ name.drop 5) (ascii "inbox") = true := by
        intro same
        have equal : (ascii "INBOX" ++ name.drop 5).length = 5 :=
          of_decide_eq_true (Bool.and_eq_true_iff.mp same).1
        rw [List.length_append, List.length_drop] at equal
        have five : (ascii "INBOX").length = 5 := rfl
        omega
      have tail : (ascii "INBOX" ++ name.drop 5).drop 5 = name.drop 5 := rfl
      rw [noninboxName, if_neg longer, tail, ite_self]
    · next deeper =>
      cases made
      rw [noninboxName, if_neg other, if_neg deeper]

/-- `ie_mailbox_t`: the inbox, or a name as `ie_mailbox_new_noninbox` makes them. -/
structure IeMailbox where
  name : Option Bytes
  normal : ∀ text, name = some text → noninboxName text = some text
  deriving DecidableEq

@[ext] theorem IeMailbox.ext {first second : IeMailbox} (same : first.name = second.name) :
    first = second := by
  cases first
  cases same
  rfl

/-- `ie_mailbox_new_noninbox` -/
def ieMailboxNewNoninbox (name : Bytes) : IeMailbox where
  name := noninboxName name
  normal _ := noninboxName_noninboxName

/-- `ie_mailbox_new_inbox` -/
def ieMailboxNewInbox : IeMailbox where
  name := none
  normal := nofun

/-! ### Sequence sets and flags -/

/-- `ie_seq_set_t`, where zero stands for `*`. -/
structure IeSeqRange where
  n1 : Nat
  n2 : Nat
  deriving DecidableEq, Repr

abbrev IeSeqSet := List IeSeqRange

/-- `ie_select_params_t` -/
inductive IeSelectParam where
  | condstore
  | qresync (uidvld lastModseq : Nat) (knownUids seqKeys uidVals : IeSeqSet)
  deriving DecidableEq, Repr

/-- `ie_flags_t` -/
structure IeFlags where
  answered : Bool
  flagged : Bool
  deleted : Bool
  seen : Bool
  draft : Bool
  keywords : IeDstr
  extensions : IeDstr
  deriving DecidableEq, Repr

/-- `ie_pflags_t` -/
structure IePflags where
  answered : Bool
  flagged : Bool
  deleted : Bool
  seen : Bool
  draft : Bool
  asterisk : Bool
  keywords : IeDstr
  extensions : IeDstr
  deriving DecidableEq, Repr

/-- `ie_selectable_t` -/
inductive IeSelectable where
  | none
  | noselect
  | marked
  | unmarked
  deriving DecidableEq, Repr

/-- `ie_mflags_t` -/
structure IeMflags where
  noinferiors : Bool
  selectable : IeSelectable
  extensions : IeDstr
  deriving DecidableEq, Repr

/-! ### Searches -/

/-- The search keys without a parameter. -/
inductive IeSearch0 where
  | all
  | answered
  | deleted
  | flagged
  | new
  | old
  | recent
  | seen
  | unanswered
  | undeleted
  | unflagged
  | unseen
  | draft
  | undraft
  deriving DecidableEq, Repr

/-- The search keys that use `param.dstr`. -/
inductive IeSearchDstr where
  | subject
  | bcc
  | body
  | cc
  | from
  | keyword
  | text
  | to
  | unkeyword
  deriving DecidableEq, Repr

/-- The search keys that use `param.date`. -/
inductive IeSearchDate where
  | before
  | on
  | since
  | sentbefore
  | senton
  | sentsince
  deriving DecidableEq, Repr

/-- The search keys that use `param.num`. -/
inductive IeSearchNum where
  | larger
  | smaller
  deriving DecidableEq, Repr

/-- The search keys that use `param.seq_set`. -/
inductive IeSearchSet where
  | uid
  | seqSet
  deriving DecidableEq, Repr

/-- The search keys that use `param.pair`. -/
inductive IeSearchPair where
  | or
  | and
  deriving DecidableEq, Repr

/-- `ie_entry_type_t` -/
inductive IeEntryType where
  | priv
  | shared
  | all
  deriving DecidableEq, Repr

/-- `ie_search_modseq_ext_t` -/
structure IeSearchModseqExt where
  entryName : IeDstr
  entryType : IeEntryType
  deriving DecidableEq, Repr

/-- `ie_search_key_t` -/
inductive IeSearchKey where
  | zero (type : IeSearch0)
  | dstr (type : IeSearchDstr) (dstr : IeDstr)
  | header (name value : IeDstr)
  | date (type : IeSearchDate) (date : ImapTime)
  | num (type : IeSearchNum) (num : Nat)
  | seqSet (type : IeSearchSet) (seqSet : IeSeqSet)
  | not (key : IeSearchKey)
  | group (key : IeSearchKey)
  | pair (type : IeSearchPair) (a b : IeSearchKey)
  | modseq (ext : Option IeSearchModseqExt) (modseq : Nat)
  deriving DecidableEq

/-! ### Fetches and stores -/

/-- `ie_sect_txt_type_t` -/
inductive IeSectTxtType where
  | mime
  | text
  | header
  | hdrFlds
  | hdrFldsNot
  deriving DecidableEq, Repr

/-- `ie_sect_txt_t` -/
structure IeSectTxt where
  type : IeSectTxtType
  headers : IeDstr
  deriving DecidableEq, Repr

/-- `ie_sect_t`, with the numbers of `ie_sect_part_t`. -/
structure IeSect where
  sectPart : List Nat
  sectTxt : Option IeSectTxt
  deriving DecidableEq, Repr

/-- `ie_partial_t` -/
structure IePartial where
  a : Nat
  b : Nat
  deriving DecidableEq, Repr

/-- `ie_fetch_extra_t` -/
structure IeFetchExtra where
  peek : Bool
  sect : Option IeSect
  part : Option IePartial
  deriving DecidableEq, Repr

/-- `ie_fetch_attrs_t` -/
structure IeFetchAttrs where
  envelope : Bool
  flags : Bool
  intdate : Bool
  uid : Bool
  rfc822 : Bool
  rfc822Header : Bool
  rfc822Size : Bool
  rfc822Text : Bool
  body : Bool
  bodystruct : Bool
  modseq : Bool
  extras : List IeFetchExtra
  deriving DecidableEq, Repr

/-- `ie_fetch_mods_t` -/
inductive IeFetchMod where
  | chgsince (chgsince : Nat)
  | vanished
  deriving DecidableEq, Repr

/-- `ie_store_mods_t` -/
inductive IeStoreMod where
  | unchgsince (unchgsince : Nat)
  deriving DecidableEq, Repr

/-! ### Status codes -/

/-- `ie_st_code_t` -/
inductive IeStCode where
  | alert
  | parse
  | readOnly
  | readWrite
  | trycreate
  | uidnext (uidnext : Nat)
  | uidvld (uidvld : Nat)
  | unseen (unseen : Nat)
  | permflags (pflags : Option IePflags)
  | capa (capa : IeDstr)
  | atom (name text : IeDstr)
  | uidnostick
  | appenduid (uidvld uid : Nat)
  | copyuid (uidvld : Nat) (uidsIn uidsOut : IeSeqSet)
  | nomodseq
  | himodseq (himodseq : Nat)
  | modified (modified : IeSeqSet)
  | closed
  deriving DecidableEq, Repr

/-- `ie_status_t` -/
inductive IeStatus where
  | ok
  | no
  | bad
  | preauth
  | bye
  deriving DecidableEq, Repr

/-- `ie_status_attr_resp_t` -/
structure IeStatusAttrResp where
  attrs : Nat
  messages : Nat
  recent : Nat
  uidnext : Nat
  uidvld : Nat
  unseen : Nat
  himodseq : Nat
  deriving DecidableEq, Repr

/-! ### Commands -/

/-- `ie_login_cmd_t` -/
structure IeLoginCmd where
  user : IeDstr
  pass : IeDstr
  deriving DecidableEq

/-- `ie_select_cmd_t` -/
structure IeSelectCmd where
  m : IeMailbox
  params : List IeSelectParam
  deriving DecidableEq

/-- `ie_rename_cmd_t` -/
structure IeRenameCmd where
  old : IeMailbox
  new : IeMailbox
  deriving DecidableEq

/-- `ie_list_cmd_t` -/
structure IeListCmd where
  m : IeMailbox
  pattern : IeDstr
  deriving DecidableEq

/-- `ie_status_cmd_t` -/
structure IeStatusCmd where
  m : IeMailbox
  statusAttr : Nat
  deriving DecidableEq

/-- `ie_append_cmd_t` -/
structure IeAppendCmd where
  m : IeMailbox
  flags : Option IeFlags
  time : ImapTime
  content : IeDstr
  deriving DecidableEq

/-- `ie_search_cmd_t` -/
structure IeSearchCmd where
  uidMode : Bool
  charset : IeDstr
  searchKey : IeSearchKey
  deriving DecidableEq

/-- `ie_fetch_cmd_t` -/
structure IeFetchCmd where
  uidMode : Bool
  seqSet : IeSeqSet
  attr : IeFetchAttrs
  mods : List IeFetchMod
  deriving DecidableEq

/-- `ie_store_cmd_t` -/
structure IeStoreCmd where
  uidMode : Bool
  seqSet : IeSeqSet
  mods : List IeStoreMod
  sign : Int
  silent : Bool
  flags : Option IeFlags
  deriving DecidableEq

/-- `ie_copy_cmd_t` -/
structure IeCopyCmd where
  uidMode : Bool
  seqSet : IeSeqSet
  m : IeMailbox
  deriving DecidableEq

/-- `imap_cmd_type_t` with `imap_cmd_arg_t`. The command of a search may be a null pointer. -/
inductive ImapCmdArg where
  | error (error : IeDstr)
  | plusReq (plus : IeDstr)
  | capa
  | noop
  | logout
  | starttls
  | login (login : IeLoginCmd)
  | select (select : IeSelectCmd)
  | examine (examine : IeSelectCmd)
  | create (create : IeMailbox)
  | delete (delete : IeMailbox)
  | rename (rename : IeRenameCmd)
  | sub (sub : IeMailbox)
  | unsub (unsub : IeMailbox)
  | list (list : IeListCmd)
  | lsub (lsub : IeListCmd)
  | status (status : IeStatusCmd)
  | append (append : IeAppendCmd)
  | check
  | close
  | expunge (uidExpunge : IeSeqSet)
  | search (search : Option IeSearchCmd)
  | fetch (fetch : IeFetchCmd)
  | store (store : IeStoreCmd)
  | copy (copy : IeCopyCmd)
  | enable (enable : IeDstr)
  | unselect
  | idle
  | idleDone (idleDone : IeDstr)
  | xkeysync (xkeysync : IeDstr)
  | xkeysyncDone (xkeysyncDone : IeDstr)
  | xkeyadd (xkeyadd : IeDstr)
  deriving DecidableEq

/-- `imap_cmd_t` -/
structure ImapCmd where
  tag : IeDstr
  arg : ImapCmdArg
  deriving DecidableEq

/-! ### Responses -/

/-- `ie_plus_resp_t` -/
structure IePlusResp where
  code : Option IeStCode
  text : IeDstr
  deriving DecidableEq, Repr

/-- `ie_st_resp_t` -/
structure IeStResp where
  tag : IeDstr
  status : IeStatus
  code : Option IeStCode
  text : IeDstr
  deriving DecidableEq, Repr

/-- `ie_list_resp_t` -/
structure IeListResp where
  mflags : Option IeMflags
  sep : UInt8
  m : IeMailbox
  deriving DecidableEq

/-- `ie_status_resp_t` -/
structure IeStatusResp where
  m : IeMailbox
  sa : IeStatusAttrResp
  deriving DecidableEq

end Splintermail
