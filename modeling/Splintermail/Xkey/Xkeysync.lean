/-
This file models the `XKEYSYNC` command: the server's side of it, which compares the
fingerprints that the client knows with those of the database, and the client's side, which
keeps its keys in step with what is reported.

The server sorts what the client sends once, and from then on walks through two sorted lists.
It takes the list of the database for what the client knows only when all changes were
reported. What was reported before a lookup failed is not taken back.
-/

import Splintermail.Citm.Keys
import Splintermail.Dstr.Find
import Splintermail.Lib.Merge
import Mathlib.Data.List.Lex
import Mathlib.Order.Lattice

namespace Splintermail

/-! ### Fingerprints -/

/-- `SMSQL_FPR_SIZE` -/
def smsqlFprSize : Nat := 64

/-- A fingerprint on the server: what `cmd_xkeysync` accepts, and what a column of the database is. -/
@[ext] structure SmsqlFpr where
  text : Bytes
  size : text.length = smsqlFprSize

namespace SmsqlFpr

theorem ne_nil (fpr : SmsqlFpr) : fpr.text ≠ [] := fun empty => by
  have size := fpr.size
  rw [empty] at size
  cases size

/-- The order of `dstr_cmp`. -/
instance : LinearOrder SmsqlFpr :=
  LinearOrder.lift' (fun fpr => cmpRank fpr.text) fun _ _ same => SmsqlFpr.ext (cmpRank_injective same)

/-- Two texts of one size are equal if they compare so. -/
theorem dstrCmp2_eq_zero {first second : SmsqlFpr} :
    dstrCmp2 first.text second.text = 0 ↔ first = second := by
  rw [dstrCmp2_of_ne_nil first.ne_nil, cmpChars_eq_zero, SmsqlFpr.ext_iff]
  refine ⟨fun equal => ?_, .inl⟩
  have sizes := first.size.trans second.size.symm
  rcases equal with same | before | after
  · exact same
  · have shorter := before.length_le
    rw [List.length_append, sizes] at shorter
    exact absurd shorter (Nat.not_succ_le_self _)
  · have shorter := after.length_le
    rw [List.length_append, sizes] at shorter
    exact absurd shorter (Nat.not_succ_le_self _)

theorem dstrCmp2_lt_zero {first second : SmsqlFpr} (apart : first ≠ second) :
    dstrCmp2 first.text second.text < 0 ↔ first < second := by
  have differ := mt dstrCmp2_eq_zero.mp apart
  rw [dstrCmp2_of_ne_nil first.ne_nil] at differ ⊢
  exact cmpChars_lt_zero differ

end SmsqlFpr

/-! ### The server -/

/-- What the server sends. The text of `created` is the public key. -/
inductive XkeyLine where
  | deleted (fpr : SmsqlFpr)
  | created (pubkey : Bytes)
  | ok
  | plus
  deriving DecidableEq

/-- What the database answers in one check: the list of fingerprints, if it gets that far, and the
public key for a fingerprint, if it is found. A row of the database has the fingerprint of its key,
and the primary key of the table and `ORDER BY` make the list sorted, with no fingerprint twice. -/
structure DeviceRows (ssl : PemReader) where
  fprs : Option {list : List SmsqlFpr // list.Pairwise (· < ·)}
  getDevice : SmsqlFpr → Option Bytes
  keyed : ∀ fpr pubkey, getDevice fpr = some pubkey →
    (ssl.keypairFromPubkeyPem pubkey).map bin2hex = some fpr.text

namespace Xkeysync

/-- The loop of `sort_fprs` through the list that is sorted. -/
def placeFpr (new : SmsqlFpr) : List SmsqlFpr → List SmsqlFpr
  | [] => [new]
  | old :: rest =>
    if dstrCmp2 new.text old.text > 0 then old :: placeFpr new rest else new :: old :: rest

/-- `sort_fprs` -/
def sortFprs (fprs : List SmsqlFpr) : List SmsqlFpr :=
  if fprs.length ≤ 1 then fprs else fprs.foldr placeFpr []

/-- `smsql_dstr_cmp` -/
def smsqlDstrCmp : Option SmsqlFpr → Option SmsqlFpr → Int
  | none, _ => 1
  | _, none => -1
  | some first, some second => dstrCmp2 first.text second.text

/-- The loop of `report_changes`: what it sends, and whether it gets to the end. -/
def reportLoop (getDevice : SmsqlFpr → Option Bytes) :
    List SmsqlFpr → List SmsqlFpr → List XkeyLine × Bool
  | [], [] => ([], true)
  | olds, news =>
    let cmp := smsqlDstrCmp olds.head? news.head?
    if cmp = 0 then
      match olds, news with
      | _ :: olds, _ :: news => reportLoop getDevice olds news
      | _, _ => ([], true)
    else if cmp < 0 then
      match olds with
      | old :: olds =>
        let (lines, done) := reportLoop getDevice olds news
        (.deleted old :: lines, done)
      | [] => ([], true)
    else
      match news with
      | new :: news =>
        match getDevice new with
        | none => ([], false)
        | some pubkey =>
          let (lines, done) := reportLoop getDevice olds news
          (.created pubkey :: lines, done)
      | [] => ([], true)
termination_by olds news => olds.length + news.length
decreasing_by all_goals simp <;> omega

/-- `report_changes`: what is sent, and what is known to the client after it. -/
def reportChanges (getDevice : SmsqlFpr → Option Bytes) (old new : List SmsqlFpr) :
    List XkeyLine × Option (List SmsqlFpr) :=
  let (lines, done) := reportLoop getDevice old new
  if done then
    -- complete one "packet" of updates
    (if lines.isEmpty then lines else lines ++ [.ok], some new)
  else (lines, none)

end Xkeysync

/-- `enum exit_msg` -/
inductive ExitMsg where
  | expectedDone
  | ok
  | internalError
  deriving DecidableEq

/-- `cmd_xkeysync_context`. The first check is made by `cmd_xkeysync` itself. -/
structure XkeysyncContext where
  knownFprs : List SmsqlFpr
  retries : Nat
  started : Bool
  finished : Option ExitMsg
  deriving DecidableEq

namespace XkeysyncContext

variable {ssl : PemReader}

/-- `xkeysync_check_now`, with true on error. -/
def xkeysyncCheckNow (ctx : XkeysyncContext) (rows : DeviceRows ssl) :
    XkeysyncContext × List XkeyLine × Bool :=
  match rows.fprs with
  | none => (ctx, [], true)
  | some allFprs =>
    match Xkeysync.reportChanges rows.getDevice ctx.knownFprs allFprs with
    | (lines, some known) => ({ ctx with knownFprs := known }, lines, false)
    | (lines, none) => (ctx, lines, true)

/-- The end of `cmd_xkeysync`. -/
def cmdXkeysync (ctx : XkeysyncContext) (rows : DeviceRows ssl) : XkeysyncContext × List XkeyLine :=
  let (ctx, lines, failure) := ctx.xkeysyncCheckNow rows
  if failure then ({ ctx with finished := some .internalError }, lines)
  -- initial synchronization point
  else ({ ctx with started := true }, lines ++ [.plus])

/-- `checker_timeout` -/
def checkerTimeout (ctx : XkeysyncContext) (rows : DeviceRows ssl) :
    XkeysyncContext × List XkeyLine :=
  let (ctx, lines, failure) := ctx.xkeysyncCheckNow rows
  if failure then
    -- allow temporary failures gracefully
    ({ ctx with
      retries := ctx.retries + 1
      finished := if ctx.retries ≥ 5 then some .internalError else ctx.finished }, lines)
  else ({ ctx with retries := 0 }, lines)

/-- `is_done` -/
def isDone (line : Bytes) : ExitMsg :=
  if line.map ichar = ascii "DONE" then .ok else .expectedDone

end XkeysyncContext

/-! ### The client -/

/-- A client with its keys. It sends its own key again if that was deleted, and gives up on a line that
it cannot read. -/
structure XkeyClient where
  keys : KeydirKeys
  needMykey : Bool
  crashed : Bool
  deriving DecidableEq

namespace XkeyClient

variable (ssl : PemReader) (fate : Bytes → AddFate)

/-- The fingerprints that `xkeysync_cmd` sends. -/
def xkeysyncCmd (keys : KeydirKeys) : List Bytes :=
  bin2hex keys.mykey.fingerprint :: keys.peers.map fun kp => bin2hex kp.fingerprint

/-- `check_xkeysync`, with what becomes of the keys that are added: the client gives up on one that
fails. -/
def checkXkeysync (client : XkeyClient) : XkeyLine → XkeyClient
  | .ok => client
  | .plus => client
  | .created pubkey =>
    match ssl.keypairFromPubkeyPem pubkey with
    | none => { client with crashed := true }
    | some _ =>
      { client with
        keys := client.keys.addKey ssl pubkey (fate pubkey), crashed := fate pubkey ≠ .written }
  | .deleted hex =>
    match hex2bin hex.text with
    | .error _ => { client with crashed := true }
    | .ok binfpr =>
      if binfpr = client.keys.mykey.fingerprint then { client with needMykey := true }
      else { client with keys := client.keys.deleteKey binfpr true }

/-- The lines that come are handled in turn. -/
def receive (client : XkeyClient) (lines : List XkeyLine) : XkeyClient :=
  lines.foldl
    (fun client line => if client.crashed then client else client.checkXkeysync ssl fate line) client

/-- The fingerprints of the keys that the client holds: its own, until that was deleted, and the
peers'. -/
def held (client : XkeyClient) : List Bytes :=
  (if client.needMykey then [] else [client.keys.mykey.fingerprint]) ++
    KeydirKeys.fprs client.keys.peers

end XkeyClient

/-! ### Runs -/

/-- A server and a client, with the lines of the last check. -/
structure Xkeysyncing where
  ctx : XkeysyncContext
  client : XkeyClient
  lines : List XkeyLine
  deriving DecidableEq

/-- A check of the database, with what becomes of the keys that the client adds, or a line of input. -/
inductive XkeysyncEvent (ssl : PemReader) where
  | check (rows : DeviceRows ssl) (fate : Bytes → AddFate)
  | input (line : Bytes)

/-- The command is over, or the client has left it. -/
structure XkeysyncOver where
  deriving DecidableEq

namespace Xkeysyncing

variable (ssl : PemReader)

/-- A command with the fingerprints that were sent. -/
def start (sent : List SmsqlFpr) (keys : KeydirKeys) : Xkeysyncing where
  ctx := ⟨Xkeysync.sortFprs sent, 0, false, none⟩
  client := ⟨keys, false, false⟩
  lines := []

/-- What happens next. A client whose own key was deleted ends the command. -/
def step (w : Xkeysyncing) (event : XkeysyncEvent ssl) : Except XkeysyncOver Xkeysyncing :=
  if w.ctx.finished.isSome || w.client.needMykey || w.client.crashed then .error ⟨⟩
  else
    match event with
    | .check rows fate =>
      let (ctx, lines) :=
        if w.ctx.started then w.ctx.checkerTimeout rows else w.ctx.cmdXkeysync rows
      .ok ⟨ctx, w.client.receive ssl fate lines, lines⟩
    | .input line => .ok { w with ctx := { w.ctx with finished := some (XkeysyncContext.isDone line) } }

end Xkeysyncing

end Splintermail
