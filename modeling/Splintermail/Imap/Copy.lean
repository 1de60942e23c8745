/-
This file models the copy functions of `expression.c` and proves which trees they copy.

Each function mirrors one type of the tree by hand. Some of them leave something out: the
parameters of SELECT and the modifiers of STORE after the first, the whole argument of
SEARCH, XKEYSYNC, XKEYADD and of the two kinds of DONE, and four numbers in status codes. A
tree is copied if and only if it has nothing there that can be lost.
-/

import Splintermail.Imap.Expression

namespace Splintermail

/-! ### Lists -/

/-- `ie_dstr_copy` -/
def ieDstrCopy : IeDstr → IeDstr
  | [] => []
  | dstr :: next => dstr :: ieDstrCopy next

@[simp] theorem ieDstrCopy_eq (old : IeDstr) : ieDstrCopy old = old := by
  induction old with
  | nil => rfl
  | cons dstr next ih => rw [ieDstrCopy, ih]

/-- `ie_seq_set_copy` -/
def ieSeqSetCopy : IeSeqSet → IeSeqSet
  | [] => []
  | set :: next => ⟨set.n1, set.n2⟩ :: ieSeqSetCopy next

@[simp] theorem ieSeqSetCopy_eq (old : IeSeqSet) : ieSeqSetCopy old = old := by
  induction old with
  | nil => rfl
  | cons set next ih => rw [ieSeqSetCopy, ih]

/-- `ie_mailbox_copy` -/
def ieMailboxCopy (old : IeMailbox) : IeMailbox :=
  match old.name with
  | none => ieMailboxNewInbox
  | some name => ieMailboxNewNoninbox name

@[simp] theorem ieMailboxCopy_eq (old : IeMailbox) : ieMailboxCopy old = old := by
  apply IeMailbox.ext
  unfold ieMailboxCopy
  split
  · next inbox => exact inbox.symm
  · next name spelled => exact (old.normal name spelled).trans spelled.symm

/-! ### Flags -/

/-- `ie_flags_copy` -/
def ieFlagsCopy (old : IeFlags) : IeFlags :=
  { old with keywords := ieDstrCopy old.keywords, extensions := ieDstrCopy old.extensions }

@[simp] theorem ieFlagsCopy_eq (old : IeFlags) : ieFlagsCopy old = old := by
  rw [ieFlagsCopy, ieDstrCopy_eq, ieDstrCopy_eq]

/-- `ie_pflags_copy` -/
def iePflagsCopy (old : IePflags) : IePflags :=
  { old with keywords := ieDstrCopy old.keywords, extensions := ieDstrCopy old.extensions }

@[simp] theorem iePflagsCopy_eq (old : IePflags) : iePflagsCopy old = old := by
  rw [iePflagsCopy, ieDstrCopy_eq, ieDstrCopy_eq]

/-- `ie_mflags_copy` -/
def ieMflagsCopy (old : IeMflags) : IeMflags :=
  { old with extensions := ieDstrCopy old.extensions }

@[simp] theorem ieMflagsCopy_eq (old : IeMflags) : ieMflagsCopy old = old := by
  rw [ieMflagsCopy, ieDstrCopy_eq]

@[simp] theorem map_copy_eq {Tree : Type} {copy : Tree → Tree} (copied : ∀ old, copy old = old)
    (old : Option Tree) : old.map copy = old := by
  cases old with
  | none => rfl
  | some tree => rw [Option.map_some, copied]

/-! ### Parameters and modifiers -/

/-- `ie_select_params_copy`. The next parameter is not copied. -/
def ieSelectParamsCopy : List IeSelectParam → List IeSelectParam
  | [] => []
  | .condstore :: _ => [.condstore]
  | .qresync uidvld lastModseq knownUids seqKeys uidVals :: _ =>
    [.qresync uidvld lastModseq (ieSeqSetCopy knownUids) (ieSeqSetCopy seqKeys) (ieSeqSetCopy uidVals)]

theorem ieSelectParamsCopy_eq (old : List IeSelectParam) : ieSelectParamsCopy old = old.take 1 := by
  cases old with
  | nil => rfl
  | cons param next =>
    cases param with
    | condstore => rfl
    | qresync => rw [ieSelectParamsCopy, ieSeqSetCopy_eq, ieSeqSetCopy_eq, ieSeqSetCopy_eq]; rfl

/-- `ie_store_mods_copy`. What is copied as the next modifier is the next one of the new one, which
has none. -/
def ieStoreModsCopy : List IeStoreMod → List IeStoreMod
  | [] => []
  | .unchgsince unchgsince :: _ => [.unchgsince unchgsince]

theorem ieStoreModsCopy_eq (old : List IeStoreMod) : ieStoreModsCopy old = old.take 1 := by
  cases old with
  | nil => rfl
  | cons mod next =>
    cases mod with
    | unchgsince => rfl

theorem take_one_eq {Tree : Type} (old : List Tree) : old.take 1 = old ↔ old.length ≤ 1 :=
  List.take_eq_self_iff old

/-- `ie_fetch_mods_copy` -/
def ieFetchModsCopy : List IeFetchMod → List IeFetchMod
  | [] => []
  | mod :: next => [mod] ++ ieFetchModsCopy next

@[simp] theorem ieFetchModsCopy_eq (old : List IeFetchMod) : ieFetchModsCopy old = old := by
  induction old with
  | nil => rfl
  | cons mod next ih => rw [ieFetchModsCopy, ih]; rfl

/-! ### Searches -/

/-- `ie_search_modseq_ext_copy` -/
def ieSearchModseqExtCopy (old : IeSearchModseqExt) : IeSearchModseqExt :=
  ⟨ieDstrCopy old.entryName, old.entryType⟩

/-- `ie_search_key_copy` -/
def ieSearchKeyCopy : IeSearchKey → IeSearchKey
  | .zero type => .zero type
  | .dstr type dstr => .dstr type (ieDstrCopy dstr)
  | .header name value => .header (ieDstrCopy name) (ieDstrCopy value)
  | .date type date => .date type date
  | .num type num => .num type num
  | .seqSet type seqSet => .seqSet type (ieSeqSetCopy seqSet)
  | .not key => .not (ieSearchKeyCopy key)
  | .group key => .group (ieSearchKeyCopy key)
  | .pair type a b => .pair type (ieSearchKeyCopy a) (ieSearchKeyCopy b)
  | .modseq ext modseq => .modseq (ext.map ieSearchModseqExtCopy) modseq

/-! ### Fetches -/

/-- `ie_sect_part_copy` -/
def ieSectPartCopy : List Nat → List Nat
  | [] => []
  | n :: next => [n] ++ ieSectPartCopy next

@[simp] theorem ieSectPartCopy_eq (old : List Nat) : ieSectPartCopy old = old := by
  induction old with
  | nil => rfl
  | cons n next ih => rw [ieSectPartCopy, ih]; rfl

/-- `ie_sect_txt_copy` -/
def ieSectTxtCopy (old : IeSectTxt) : IeSectTxt := ⟨old.type, ieDstrCopy old.headers⟩

@[simp] theorem ieSectTxtCopy_eq (old : IeSectTxt) : ieSectTxtCopy old = old := by
  rw [ieSectTxtCopy, ieDstrCopy_eq]

/-- `ie_sect_copy` -/
def ieSectCopy (old : IeSect) : IeSect :=
  ⟨ieSectPartCopy old.sectPart, old.sectTxt.map ieSectTxtCopy⟩

@[simp] theorem ieSectCopy_eq (old : IeSect) : ieSectCopy old = old := by
  rw [ieSectCopy, ieSectPartCopy_eq, map_copy_eq ieSectTxtCopy_eq]

/-- `ie_partial_copy` -/
def iePartialCopy (old : IePartial) : IePartial := ⟨old.a, old.b⟩

@[simp] theorem iePartialCopy_eq (old : IePartial) : iePartialCopy old = old := rfl

/-- `ie_fetch_extra_copy` -/
def ieFetchExtraCopy : List IeFetchExtra → List IeFetchExtra
  | [] => []
  | extra :: next =>
    ⟨extra.peek, extra.sect.map ieSectCopy, extra.part.map iePartialCopy⟩ :: ieFetchExtraCopy next

@[simp] theorem ieFetchExtraCopy_eq (old : List IeFetchExtra) : ieFetchExtraCopy old = old := by
  induction old with
  | nil => rfl
  | cons extra next ih =>
    rw [ieFetchExtraCopy, ih, map_copy_eq ieSectCopy_eq, map_copy_eq iePartialCopy_eq]

/-- `ie_fetch_attrs_copy`: everything but the extras, and then the extras. -/
def ieFetchAttrsCopy (old : IeFetchAttrs) : IeFetchAttrs :=
  let f := { old with extras := [] }
  { f with extras := f.extras ++ ieFetchExtraCopy old.extras }

@[simp] theorem ieFetchAttrsCopy_eq (old : IeFetchAttrs) : ieFetchAttrsCopy old = old := by
  rw [ieFetchAttrsCopy, ieFetchExtraCopy_eq]
  rfl

/-! ### Status codes -/

/-- `ie_st_code_copy`. Where the source has no assignment, the number stays zero. -/
def ieStCodeCopy : IeStCode → IeStCode
  | .alert => .alert
  | .parse => .parse
  | .readOnly => .readOnly
  | .readWrite => .readWrite
  | .trycreate => .trycreate
  | .uidnext _ => .uidnext 0
  | .uidvld _ => .uidvld 0
  | .unseen _ => .unseen 0
  | .permflags pflags => .permflags (pflags.map iePflagsCopy)
  | .capa capa => .capa (ieDstrCopy capa)
  | .atom name text => .atom (ieDstrCopy name) (ieDstrCopy text)
  | .uidnostick => .uidnostick
  | .appenduid uidvld uid => .appenduid uidvld uid
  | .copyuid _ uidsIn uidsOut => .copyuid 0 (ieSeqSetCopy uidsIn) (ieSeqSetCopy uidsOut)
  | .nomodseq => .nomodseq
  | .himodseq himodseq => .himodseq himodseq
  | .modified modified => .modified (ieSeqSetCopy modified)
  | .closed => .closed

/-- A code that has none of the numbers which are not copied. -/
def IeStCode.Kept : IeStCode → Prop
  | .uidnext number => number = 0
  | .uidvld number => number = 0
  | .unseen number => number = 0
  | .copyuid number _ _ => number = 0
  | _ => True

theorem ieStCodeCopy_eq_iff (old : IeStCode) : ieStCodeCopy old = old ↔ old.Kept := by
  cases old <;> simp [ieStCodeCopy, IeStCode.Kept, eq_comm]

theorem map_ieStCodeCopy_eq_iff (old : Option IeStCode) :
    old.map ieStCodeCopy = old ↔ ∀ code ∈ old, code.Kept := by
  cases old with
  | none => simp
  | some code => simp [ieStCodeCopy_eq_iff]

/-! ### Commands -/

/-- `ie_login_cmd_copy` -/
def ieLoginCmdCopy (old : IeLoginCmd) : IeLoginCmd := ⟨ieDstrCopy old.user, ieDstrCopy old.pass⟩

/-- `ie_select_cmd_copy` -/
def ieSelectCmdCopy (old : IeSelectCmd) : IeSelectCmd :=
  ⟨ieMailboxCopy old.m, ieSelectParamsCopy old.params⟩

/-- `ie_rename_cmd_copy` -/
def ieRenameCmdCopy (old : IeRenameCmd) : IeRenameCmd := ⟨ieMailboxCopy old.old, ieMailboxCopy old.new⟩

/-- `ie_list_cmd_copy` -/
def ieListCmdCopy (old : IeListCmd) : IeListCmd := ⟨ieMailboxCopy old.m, ieDstrCopy old.pattern⟩

/-- `ie_status_cmd_copy` -/
def ieStatusCmdCopy (old : IeStatusCmd) : IeStatusCmd := ⟨ieMailboxCopy old.m, old.statusAttr⟩

/-- `ie_append_cmd_copy` -/
def ieAppendCmdCopy (old : IeAppendCmd) : IeAppendCmd :=
  ⟨ieMailboxCopy old.m, old.flags.map ieFlagsCopy, old.time, ieDstrCopy old.content⟩

/-- `ie_search_cmd_copy` -/
def ieSearchCmdCopy (old : IeSearchCmd) : IeSearchCmd :=
  ⟨old.uidMode, ieDstrCopy old.charset, ieSearchKeyCopy old.searchKey⟩

/-- `ie_fetch_cmd_copy` -/
def ieFetchCmdCopy (old : IeFetchCmd) : IeFetchCmd :=
  ⟨old.uidMode, ieSeqSetCopy old.seqSet, ieFetchAttrsCopy old.attr, ieFetchModsCopy old.mods⟩

/-- `ie_store_cmd_copy` -/
def ieStoreCmdCopy (old : IeStoreCmd) : IeStoreCmd :=
  ⟨old.uidMode, ieSeqSetCopy old.seqSet, ieStoreModsCopy old.mods, old.sign, old.silent,
    old.flags.map ieFlagsCopy⟩

/-- `ie_copy_cmd_copy` -/
def ieCopyCmdCopy (old : IeCopyCmd) : IeCopyCmd :=
  ⟨old.uidMode, ieSeqSetCopy old.seqSet, ieMailboxCopy old.m⟩

@[simp] theorem ieLoginCmdCopy_eq (old : IeLoginCmd) : ieLoginCmdCopy old = old := by
  rw [ieLoginCmdCopy, ieDstrCopy_eq, ieDstrCopy_eq]

@[simp] theorem ieRenameCmdCopy_eq (old : IeRenameCmd) : ieRenameCmdCopy old = old := by
  rw [ieRenameCmdCopy, ieMailboxCopy_eq, ieMailboxCopy_eq]

@[simp] theorem ieListCmdCopy_eq (old : IeListCmd) : ieListCmdCopy old = old := by
  rw [ieListCmdCopy, ieMailboxCopy_eq, ieDstrCopy_eq]

@[simp] theorem ieStatusCmdCopy_eq (old : IeStatusCmd) : ieStatusCmdCopy old = old := by
  rw [ieStatusCmdCopy, ieMailboxCopy_eq]

@[simp] theorem ieAppendCmdCopy_eq (old : IeAppendCmd) : ieAppendCmdCopy old = old := by
  rw [ieAppendCmdCopy, ieMailboxCopy_eq, map_copy_eq ieFlagsCopy_eq, ieDstrCopy_eq]

@[simp] theorem ieFetchCmdCopy_eq (old : IeFetchCmd) : ieFetchCmdCopy old = old := by
  rw [ieFetchCmdCopy, ieSeqSetCopy_eq, ieFetchAttrsCopy_eq, ieFetchModsCopy_eq]

@[simp] theorem ieCopyCmdCopy_eq (old : IeCopyCmd) : ieCopyCmdCopy old = old := by
  rw [ieCopyCmdCopy, ieSeqSetCopy_eq, ieMailboxCopy_eq]

@[simp] theorem ieSelectCmdCopy_eq_iff (old : IeSelectCmd) :
    ieSelectCmdCopy old = old ↔ old.params.length ≤ 1 := by
  rw [← take_one_eq, ieSelectCmdCopy, ieMailboxCopy_eq, ieSelectParamsCopy_eq]
  exact ⟨fun same => congrArg IeSelectCmd.params same, fun same => by rw [same]⟩

@[simp] theorem ieStoreCmdCopy_eq_iff (old : IeStoreCmd) :
    ieStoreCmdCopy old = old ↔ old.mods.length ≤ 1 := by
  rw [← take_one_eq, ieStoreCmdCopy, ieSeqSetCopy_eq, map_copy_eq ieFlagsCopy_eq, ieStoreModsCopy_eq]
  exact ⟨fun same => congrArg IeStoreCmd.mods same, fun same => by rw [same]⟩

/-- `imap_cmd_arg_copy`. Five of the cases copy the argument that is being made, which is a null
pointer. -/
def imapCmdArgCopy : ImapCmdArg → ImapCmdArg
  | .error error => .error (ieDstrCopy error)
  | .plusReq plus => .plusReq (ieDstrCopy plus)
  | .capa => .capa
  | .noop => .noop
  | .logout => .logout
  | .starttls => .starttls
  | .login login => .login (ieLoginCmdCopy login)
  | .select select => .select (ieSelectCmdCopy select)
  | .examine examine => .examine (ieSelectCmdCopy examine)
  | .create create => .create (ieMailboxCopy create)
  | .delete delete => .delete (ieMailboxCopy delete)
  | .rename rename => .rename (ieRenameCmdCopy rename)
  | .sub sub => .sub (ieMailboxCopy sub)
  | .unsub unsub => .unsub (ieMailboxCopy unsub)
  | .list list => .list (ieListCmdCopy list)
  | .lsub lsub => .lsub (ieListCmdCopy lsub)
  | .status status => .status (ieStatusCmdCopy status)
  | .append append => .append (ieAppendCmdCopy append)
  | .check => .check
  | .close => .close
  | .expunge uidExpunge => .expunge (ieSeqSetCopy uidExpunge)
  | .search _ => .search ((none : Option IeSearchCmd).map ieSearchCmdCopy)
  | .fetch fetch => .fetch (ieFetchCmdCopy fetch)
  | .store store => .store (ieStoreCmdCopy store)
  | .copy copy => .copy (ieCopyCmdCopy copy)
  | .enable enable => .enable (ieDstrCopy enable)
  | .unselect => .unselect
  | .idle => .idle
  | .idleDone _ => .idleDone (ieDstrCopy [])
  | .xkeysync _ => .xkeysync (ieDstrCopy [])
  | .xkeysyncDone _ => .xkeysyncDone (ieDstrCopy [])
  | .xkeyadd _ => .xkeyadd (ieDstrCopy [])

/-- `imap_cmd_copy` -/
def imapCmdCopy (old : ImapCmd) : ImapCmd := ⟨ieDstrCopy old.tag, imapCmdArgCopy old.arg⟩

/-- An argument with nothing that is not copied. -/
def ImapCmdArg.Kept : ImapCmdArg → Prop
  | .select cmd => cmd.params.length ≤ 1
  | .examine cmd => cmd.params.length ≤ 1
  | .store cmd => cmd.mods.length ≤ 1
  | .search cmd => cmd = none
  | .idleDone text => text = []
  | .xkeysync fprs => fprs = []
  | .xkeysyncDone text => text = []
  | .xkeyadd key => key = []
  | _ => True

theorem imapCmdArgCopy_eq_iff (old : ImapCmdArg) : imapCmdArgCopy old = old ↔ old.Kept := by
  cases old <;> simp [imapCmdArgCopy, ImapCmdArg.Kept, @eq_comm _ none]

theorem imapCmdCopy_eq_iff (old : ImapCmd) : imapCmdCopy old = old ↔ old.arg.Kept := by
  rw [← imapCmdArgCopy_eq_iff, imapCmdCopy, ieDstrCopy_eq]
  exact ⟨fun same => congrArg ImapCmd.arg same, fun same => by rw [same]⟩

/-! ### Responses -/

/-- `ie_plus_resp_copy` -/
def iePlusRespCopy (old : IePlusResp) : IePlusResp := ⟨old.code.map ieStCodeCopy, ieDstrCopy old.text⟩

/-- `ie_st_resp_copy` -/
def ieStRespCopy (old : IeStResp) : IeStResp :=
  ⟨ieDstrCopy old.tag, old.status, old.code.map ieStCodeCopy, ieDstrCopy old.text⟩

/-- `ie_list_resp_copy` -/
def ieListRespCopy (old : IeListResp) : IeListResp :=
  ⟨old.mflags.map ieMflagsCopy, old.sep, ieMailboxCopy old.m⟩

/-- `ie_status_resp_copy` -/
def ieStatusRespCopy (old : IeStatusResp) : IeStatusResp := ⟨ieMailboxCopy old.m, old.sa⟩

theorem iePlusRespCopy_eq_iff (old : IePlusResp) :
    iePlusRespCopy old = old ↔ ∀ code ∈ old.code, code.Kept := by
  rw [← map_ieStCodeCopy_eq_iff, iePlusRespCopy, ieDstrCopy_eq]
  exact ⟨fun same => congrArg IePlusResp.code same, fun same => by rw [same]⟩

theorem ieStRespCopy_eq_iff (old : IeStResp) :
    ieStRespCopy old = old ↔ ∀ code ∈ old.code, code.Kept := by
  rw [← map_ieStCodeCopy_eq_iff, ieStRespCopy, ieDstrCopy_eq, ieDstrCopy_eq]
  exact ⟨fun same => congrArg IeStResp.code same, fun same => by rw [same]⟩

theorem ieListRespCopy_eq (old : IeListResp) : ieListRespCopy old = old := by
  rw [ieListRespCopy, map_copy_eq ieMflagsCopy_eq, ieMailboxCopy_eq]

theorem ieStatusRespCopy_eq (old : IeStatusResp) : ieStatusRespCopy old = old := by
  rw [ieStatusRespCopy, ieMailboxCopy_eq]

/-- Everything that can be copied. -/
inductive Copied where
  | cmd (cmd : ImapCmd)
  | plus (plus : IePlusResp)
  | st (st : IeStResp)
  | list (list : IeListResp)
  | status (status : IeStatusResp)
  deriving DecidableEq

namespace Copied

/-- The copy that the function for this kind of tree makes. -/
def copy : Copied → Copied
  | .cmd old => .cmd (imapCmdCopy old)
  | .plus old => .plus (iePlusRespCopy old)
  | .st old => .st (ieStRespCopy old)
  | .list old => .list (ieListRespCopy old)
  | .status old => .status (ieStatusRespCopy old)

/-- A tree with nothing that is not copied. -/
def Kept : Copied → Prop
  | .cmd old => old.arg.Kept
  | .plus old => ∀ code ∈ old.code, code.Kept
  | .st old => ∀ code ∈ old.code, code.Kept
  | .list _ => True
  | .status _ => True

/-- A command or a response is copied as it is, if and only if it has nothing that is left out. -/
theorem copy_eq_iff (old : Copied) : old.copy = old ↔ old.Kept := by
  cases old with
  | cmd old => exact (iff_of_eq (Copied.cmd.injEq _ _)).trans (imapCmdCopy_eq_iff old)
  | plus old => exact (iff_of_eq (Copied.plus.injEq _ _)).trans (iePlusRespCopy_eq_iff old)
  | st old => exact (iff_of_eq (Copied.st.injEq _ _)).trans (ieStRespCopy_eq_iff old)
  | list old => exact iff_of_true (congrArg Copied.list (ieListRespCopy_eq old)) trivial
  | status old => exact iff_of_true (congrArg Copied.status (ieStatusRespCopy_eq old)) trivial

/-- A search for everything, a STORE with two modifiers, and a status response. -/
theorem copy_fails :
    Copied.copy (.cmd ⟨[ascii "A1"], .search (some ⟨false, [], .zero .all⟩)⟩) ≠
        .cmd ⟨[ascii "A1"], .search (some ⟨false, [], .zero .all⟩)⟩ ∧
      Copied.copy (.cmd ⟨[ascii "A2"], .store ⟨false, [⟨1, 1⟩], [.unchgsince 1, .unchgsince 2], 0, false,
          none⟩⟩) ≠
        .cmd ⟨[ascii "A2"], .store ⟨false, [⟨1, 1⟩], [.unchgsince 1, .unchgsince 2], 0, false, none⟩⟩ ∧
      Copied.copy (.st ⟨[], .ok, some (.uidnext 5), [ascii "hi"]⟩) ≠
        .st ⟨[], .ok, some (.uidnext 5), [ascii "hi"]⟩ := by
  decide

end Copied

end Splintermail
