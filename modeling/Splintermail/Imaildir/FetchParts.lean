/-
This file says when the tagged response of a FETCH tells that a part was missing.

A FETCH is answered message by message, in as many calls, and what was missing is kept from call to
call. For one message the sections are answered in their order, and the flag for a missing one
is passed on to each of them. As each of them clears it first, the flag of the last one is
what is left.
-/

import Splintermail.Imaildir.Conn
import Splintermail.Imf.Submessage

namespace Splintermail

open List

/-! ### A run of a FETCH -/

/-- A FETCH is being answered: these messages are left, and something was missing before or not. -/
structure Responding (conn : Conn) (uids : List Nat) (anyMissing : Bool) : Prop where
  command : ∃ cmd gather, conn.dn.command = some (.fetch cmd) ∧ cmd.ready = some gather ∧
    cmd.uidsDn = uids ∧ (cmd.synced && !cmd.syncProcessed) = false
  anyMissing : conn.anyMissing = anyMissing

section Run

variable (parser : ImfParser) (load : Nat → Except Derr LoadedMsg) (extras : List IeFetchExtra)

/-- What is found of the sections of a message is the answer in a call. -/
def PartFound (answers : Answers) (uidDn : Nat) : Prop :=
  ∃ f missing, sendFetchExtras parser (load uidDn) extras [] false = .ok (f, missing) ∧
    answers.partMissing = .ok missing

/-- The calls of `dn_fetch` from the first response on, up to the tagged response. Between the calls
everything may change but the command and what it keeps. -/
inductive FetchRun (args : FetchArgs) : Conn → List Nat → Status → Prop
  | reply {conn : Conn} {tagp : Option String} {answers : Answers} {called : Called}
      {resp : DnStResp} (call : conn.fetch tagp answers args = .ok called) (done : called.ok = true)
      (last : called.out.getLast? = some (.statusType resp)) : FetchRun args conn [] resp.status
  | more {conn next : Conn} {tagp : Option String} {answers : Answers} {called : Called}
      {uidDn : Nat} {uids : List Nat} {status : Status}
      (found : PartFound parser load extras answers uidDn)
      (call : conn.fetch tagp answers args = .ok called) (waits : called.ok = false)
      (command : next.dn.command = called.conn.dn.command)
      (anyMissing : next.anyMissing = called.conn.anyMissing)
      (rest : FetchRun args next uids status) : FetchRun args conn (uidDn :: uids) status

/-- A section of a message does not exist. -/
def SomeMissing (uids : List Nat) : Prop :=
  ∃ uidDn ∈ uids, ∃ msg, load uidDn = .ok msg ∧ ∃ extra ∈ extras, SectionMissing parser msg extra

/-- The last section of a message does not exist. -/
def LastMissing (uids : List Nat) : Prop :=
  ∃ uidDn ∈ uids, ∃ msg, load uidDn = .ok msg ∧
    ∃ extra, extras.getLast? = some extra ∧ SectionMissing parser msg extra

end Run

/-! ### One call -/

section Calls

variable {conn : Conn} {uids : List Nat} {any : Bool} {tagp : Option String} {answers : Answers}
  {args : FetchArgs} {called : Called}

/-- A call of a FETCH that is being answered gives the next response. -/
theorem Responding.fetch_eq (responding : Responding conn uids any)
    (call : conn.fetch tagp answers args = .ok called) :
    ∃ cmd gather, cmd.uidsDn = uids ∧ (cmd.synced && !cmd.syncProcessed) = false ∧
      conn.fetchRespond tagp answers cmd gather = .ok called := by
  obtain ⟨cmd, gather, command, ready, left, processed⟩ := responding.command
  refine ⟨cmd, gather, left, processed, ?_⟩
  unfold Conn.fetch at call
  obtain ⟨-, -, call⟩ := exists_of_bind_eq_ok call
  rw [command] at call
  dsimp only at call
  rw [Conn.fetchSynced, command] at call
  dsimp only at call
  rw [processed, if_neg Bool.false_ne_true, Conn.fetchReady, command] at call
  dsimp only at call
  rwa [ready] at call

theorem Responding.fetch_cons {uidDn : Nat} (responding : Responding conn (uidDn :: uids) any)
    (call : conn.fetch tagp answers args = .ok called) :
    ∃ missing, answers.partMissing = .ok missing ∧
      Responding called.conn uids (any || missing) := by
  obtain ⟨cmd, gather, left, processed, call⟩ := responding.fetch_eq call
  rw [Conn.fetchRespond, left] at call
  obtain ⟨⟨view, seqNum⟩, -, call⟩ := exists_of_bind_eq_ok call
  obtain ⟨missing, found, call⟩ := exists_of_bind_eq_ok call
  cases call
  exact ⟨missing, found, ⟨_, _, rfl, rfl, rfl, processed⟩, by rw [responding.anyMissing]⟩

theorem Responding.fetch_nil (responding : Responding conn [] any)
    (call : conn.fetch tagp answers args = .ok called) {resp : DnStResp}
    (last : called.out.getLast? = some (.statusType resp)) : resp.status = .no ↔ any = true := by
  obtain ⟨cmd, gather, left, -, call⟩ := responding.fetch_eq call
  rw [Conn.fetchRespond, left] at call
  obtain ⟨⟨dn, responses⟩, -, call⟩ := exists_of_bind_eq_ok call
  cases call
  rw [Conn.conclude, getLast?_append, getLast?_singleton, Option.some_or] at last
  obtain rfl := DnResponse.statusType.inj (Option.some.inj last)
  rw [responding.anyMissing]
  cases any <;> simp [Conn.verdict]

end Calls

/-! ### The tagged response -/

section Tagged

variable {parser : ImfParser} {load : Nat → Except Derr LoadedMsg} {extras : List IeFetchExtra}

/-- What is answered for a message is whether its last section is missing. -/
theorem PartFound.missing_iff {answers : Answers} {uidDn : Nat} {missing : Bool}
    (found : PartFound parser load extras answers uidDn)
    (answered : answers.partMissing = .ok missing) :
    missing = true ↔ LastMissing parser load extras [uidDn] := by
  obtain ⟨f, flag, result, same⟩ := found
  cases same.symm.trans answered
  unfold LastMissing
  simp only [mem_singleton, exists_eq_left]
  cases loaded : load uidDn with
  | ok msg =>
    rw [loaded] at result
    rw [sendFetchExtras_ok result]
    cases extras.getLast? with
    | none =>
      refine iff_of_false Bool.false_ne_true ?_
      rintro ⟨_, _, _, same, -⟩
      exact nomatch same
    | some last =>
      constructor
      · exact fun missing => ⟨msg, rfl, last, rfl, missing⟩
      · rintro ⟨_, same, _, lastSame, missing⟩
        cases same
        cases lastSame
        exact missing
  | error error =>
    refine iff_of_false ?_ (by rintro ⟨_, same, -⟩; exact nomatch same)
    rw [loaded] at result
    cases extras with
    | nil =>
      cases result
      exact Bool.false_ne_true
    | cons extra next =>
      have failed : sendFetchExtras parser (.error error) (extra :: next) [] false = _ :=
        sendFetchExtras_error (extraContent_unloaded error extra) [] false
      exact nomatch failed.symm.trans result

theorem lastMissing_cons {uidDn : Nat} {uids : List Nat} :
    LastMissing parser load extras (uidDn :: uids) ↔
      LastMissing parser load extras [uidDn] ∨ LastMissing parser load extras uids := by
  unfold LastMissing
  simp only [mem_cons, not_mem_nil, or_false, or_and_right, exists_or, exists_eq_left]

/-- The tagged response of a run is NO if the flag was set before or the last section of a message
is missing. -/
theorem FetchRun.status_no_iff {args : FetchArgs} {conn : Conn} {uids : List Nat} {any : Bool}
    {status : Status} (run : FetchRun parser load extras args conn uids status)
    (responding : Responding conn uids any) :
    status = .no ↔ any = true ∨ LastMissing parser load extras uids := by
  induction run generalizing any with
  | reply call done last =>
    have empty : ¬ LastMissing parser load extras [] := by
      rintro ⟨_, mem, -⟩
      exact nomatch mem
    rw [responding.fetch_nil call last, or_iff_left empty]
  | more found call waits command anyMissing rest ih =>
    obtain ⟨missing, answered, after⟩ := responding.fetch_cons call
    obtain ⟨cmd, gather, current, ready, left, processed⟩ := after.command
    have undisturbed : Responding _ _ _ :=
      ⟨⟨cmd, gather, command.trans current, ready, left, processed⟩,
        anyMissing.trans after.anyMissing⟩
    rw [ih undisturbed, lastMissing_cons, ← found.missing_iff answered, Bool.or_eq_true, or_assoc]

/-- The fields of a part that is no message are not read if and only if no list of sections comes
to one that asks for them. -/
theorem sendFetchExtras_guarded_iff (uids : List Nat) :
    (∀ uidDn ∈ uids, Guarded (sendFetchExtras parser (load uidDn) extras [] false)) ↔
      ∀ uidDn ∈ uids, ∀ msg, load uidDn = .ok msg → ¬ FieldsOfNoMessageAsked parser msg extras := by
  refine forall₂_congr fun uidDn _ => ?_
  unfold Guarded
  cases load uidDn with
  | ok msg =>
    rw [ne_eq, sendFetchExtras_noImf_iff]
    constructor
    · rintro unasked _ ⟨⟩
      exact unasked
    · exact fun unasked => unasked msg rfl
  | error error =>
    refine iff_of_true ?_ nofun
    cases extras with
    | nil => exact nofun
    | cons extra next =>
      rw [sendFetchExtras_error (extraContent_unloaded error extra) [] false]
      exact nofun

end Tagged

/-! ### A message with one part -/

/-- A message of text. -/
def plainLoaded : LoadedMsg where
  buf := ascii "Subject: hi\n\nyou"
  hdrs := ⟨⟨0, 13⟩, ⟨12, 1⟩, [⟨⟨0, 12⟩, ⟨0, 7⟩, ⟨8, 3⟩⟩]⟩

/-- A part of a message, whole. -/
def partExtra (n : Nat) : IeFetchExtra := ⟨true, some ⟨[n], none⟩, none⟩

/-- A FETCH of the parts of a message is being answered. -/
def fetchingConn (uidsDn : List Nat) : Conn where
  dn :=
    { id := 1
      examine := false
      views := [⟨.up 1, 1, 16, {}, {}⟩]
      command := some (.fetch
        { uidMode := false, flags := false, uid := false, uidsDn, ready := some {} }) }
  tag := some "A1"

theorem fetchingConn_responding (uidsDn : List Nat) :
    Responding (fetchingConn uidsDn) uidsDn false where
  command := ⟨_, _, rfl, rfl, rfl, rfl⟩
  anyMissing := rfl

theorem plainLoaded_missing : SectionMissing textParser plainLoaded (partExtra 2) :=
  ⟨_, rfl, .inl rfl⟩

theorem fetchRun_of_parts :
    FetchRun textParser (fun _ => .ok plainLoaded) [partExtra 2, partExtra 1]
      { uidMode := false, seqSet := [⟨1, 1⟩] } (fetchingConn [1]) [1] .ok := by
  have found : PartFound textParser (fun _ => .ok plainLoaded) [partExtra 2, partExtra 1] {} 1 :=
    ⟨_, _, rfl, rfl⟩
  have first : (fetchingConn [1]).fetch none {} { uidMode := false, seqSet := [⟨1, 1⟩] } =
    .ok _ := rfl
  refine FetchRun.more found first rfl rfl rfl ?_
  have second : (fetchingConn []).fetch none {} { uidMode := false, seqSet := [⟨1, 1⟩] } =
    .ok _ := rfl
  exact FetchRun.reply second rfl rfl

/-- The tagged response of a FETCH is NO just if a section of a message is missing, if and only if
then the last section of some message is missing; and no fields are read of a part that is no
message, if and only if no section that is come to asks for them. -/
theorem fetchRun_missing_iff (parser : ImfParser) (load : Nat → Except Derr LoadedMsg)
    (extras : List IeFetchExtra) (uids : List Nat) :
    (∀ (args : FetchArgs) (conn : Conn) (status : Status), Responding conn uids false →
      FetchRun parser load extras args conn uids status →
        ((status = .no ↔ SomeMissing parser load extras uids) ↔
          (SomeMissing parser load extras uids → LastMissing parser load extras uids))) ∧
    ((∀ uidDn ∈ uids, Guarded (sendFetchExtras parser (load uidDn) extras [] false)) ↔
      ∀ uidDn ∈ uids, ∀ msg, load uidDn = .ok msg →
        ¬ FieldsOfNoMessageAsked parser msg extras) := by
  refine ⟨fun args conn status responding run => ?_, sendFetchExtras_guarded_iff uids⟩
  have last := run.status_no_iff responding
  rw [or_iff_right Bool.false_ne_true] at last
  rw [last]
  refine ⟨Iff.mpr, fun enough => ⟨?_, enough⟩⟩
  rintro ⟨uidDn, mem, msg, loaded, extra, found, missing⟩
  exact ⟨uidDn, mem, msg, loaded, extra, mem_of_getLast? found, missing⟩

/-- For the message with one part: the first section is missing and the last one is not. -/
theorem fetchRun_missing_iff_parts :
    (Status.ok = .no ↔
      SomeMissing textParser (fun _ => .ok plainLoaded) [partExtra 2, partExtra 1] [1]) ↔
    (SomeMissing textParser (fun _ => .ok plainLoaded) [partExtra 2, partExtra 1] [1] →
      LastMissing textParser (fun _ => .ok plainLoaded) [partExtra 2, partExtra 1] [1]) :=
  (fetchRun_missing_iff textParser (fun _ => .ok plainLoaded) [partExtra 2, partExtra 1] [1]).1
    _ _ _ (fetchingConn_responding [1]) fetchRun_of_parts

/-- The response is OK although a section is missing. -/
theorem fetchRun_missing_lost :
    ¬ ∀ (parser : ImfParser) (load : Nat → Except Derr LoadedMsg) (extras : List IeFetchExtra)
      (uids : List Nat) (args : FetchArgs) (conn : Conn) (status : Status),
      Responding conn uids false → FetchRun parser load extras args conn uids status →
        (status = .no ↔ SomeMissing parser load extras uids) ∧
          ∀ uidDn ∈ uids, Guarded (sendFetchExtras parser (load uidDn) extras [] false) := by
  intro always
  obtain ⟨answered, -⟩ := always _ _ _ _ _ _ _ (fetchingConn_responding [1]) fetchRun_of_parts
  have missing : SomeMissing textParser (fun _ => .ok plainLoaded) [partExtra 2, partExtra 1] [1] :=
    ⟨1, mem_singleton_self 1, plainLoaded, rfl, partExtra 2, mem_cons_self,
      plainLoaded_missing⟩
  exact nomatch answered.mpr missing

end Splintermail
