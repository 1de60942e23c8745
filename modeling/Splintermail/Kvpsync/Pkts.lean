/-
This file models the packets of kvpsync on the wire: `pkts.c`.

What an update has after its type depends on the type, and a key and a value have a length
before them. A packet is read with a position and a flag that the numbers fit what is left.
A byte that is read from outside of the packet is a fault. What is read is exactly what is
written: a packet is accepted as an update just if it begins with what is written of it.
-/

import Splintermail.Kvpsync.Recv
import Splintermail.Lib.BigEndian

namespace Splintermail

open List

namespace Pkts

/-! ### Reading -/

/-- A byte that is read from outside of the packet. -/
structure Overread where
  pos : Nat
  deriving DecidableEq

/-- The `pos` and the `ok` of a reader. -/
structure Cursor where
  pos : Nat
  ok : Bool
  deriving DecidableEq

/-- A byte of `rbuf.data`. -/
def byteAt (rbuf : Bytes) (pos : Nat) : Except Overread UInt8 :=
  match rbuf[pos]? with
  | some byte => .ok byte
  | none => .error ⟨pos⟩

/-- Bytes of `rbuf.data`, one after another. -/
def bytesAt (rbuf : Bytes) (pos : Nat) : Nat → Except Overread Bytes
  | 0 => .ok []
  | count + 1 => do
    let byte ← byteAt rbuf pos
    let rest ← bytesAt rbuf (pos + 1) count
    return byte :: rest

/-- What the readers of numbers have in common. So many bytes fit the type of the number, so that
no shift drops a bit. -/
def readUint (width : Nat) (rbuf : Bytes) (cursor : Cursor) : Except Overread (Nat × Cursor) :=
  if !cursor.ok then .ok (0, cursor)
  else if cursor.pos + width > rbuf.length then .ok (0, ⟨cursor.pos, false⟩)
  else do
    let udata ← bytesAt rbuf cursor.pos width
    return (beNat udata, ⟨cursor.pos + width, true⟩)

/-- `read_uint64` -/
def readUint64 : Bytes → Cursor → Except Overread (Nat × Cursor) := readUint 8

/-- `read_uint32` -/
def readUint32 : Bytes → Cursor → Except Overread (Nat × Cursor) := readUint 4

/-- `read_uint8` -/
def readUint8 : Bytes → Cursor → Except Overread (Nat × Cursor) := readUint 1

/-- A length and so many bytes, as `kvpsync_update_read` reads a key and a value. -/
def readText (rbuf : Bytes) (cursor : Cursor) : Except Overread (Option (Bytes × Cursor)) := do
  let (len, cursor) ← readUint8 rbuf cursor
  if !cursor.ok then return none
  if cursor.pos + len > rbuf.length then return none
  let text ← bytesAt rbuf cursor.pos len
  return some (text, ⟨cursor.pos + len, cursor.ok⟩)

/-- `kvpsync_update_read` after the type. -/
def readBody (rbuf : Bytes) (cursor : Cursor) (updateId type : Nat) :
    Except Overread (Option KvpBody) :=
  match type with
  | 0 => return some .empty
  | 1 => return some .flush
  | 2 =>
    if updateId ≠ 1 then return none
    else do
      let (resyncId, cursor) ← readUint32 rbuf cursor
      return if cursor.ok then some (.start resyncId) else none
  | 3 => do
    let some (key, cursor) ← readText rbuf cursor | return none
    let some (val, _) ← readText rbuf cursor | return none
    return some (.insert key val)
  | 4 => do
    let some (key, cursor) ← readText rbuf cursor | return none
    let (deleteId, cursor) ← readUint32 rbuf cursor
    return if cursor.ok then some (.delete key deleteId) else none
  | _ => return none

/-- `kvpsync_update_read` -/
def kvpsyncUpdateRead (rbuf : Bytes) : Except Overread (Option KvpUpdate) := do
  let (okExpiry, cursor) ← readUint64 rbuf ⟨0, true⟩
  let (syncId, cursor) ← readUint32 rbuf cursor
  let (updateId, cursor) ← readUint32 rbuf cursor
  let (type, cursor) ← readUint8 rbuf cursor
  if !cursor.ok then return none
  let some body ← readBody rbuf cursor updateId type | return none
  return some ⟨okExpiry, syncId, updateId, body⟩

/-- `kvpsync_ack_read` -/
def kvpsyncAckRead (rbuf : Bytes) : Except Overread (Option KvpAck) := do
  let (syncId, cursor) ← readUint32 rbuf ⟨0, true⟩
  let (updateId, cursor) ← readUint32 rbuf cursor
  return if cursor.ok then some ⟨syncId, updateId⟩ else none

/-! ### Writing -/

/-- `E_INTERNAL`, with its message. -/
structure Internal where
  msg : String
  deriving DecidableEq

/-- What the writers of numbers have in common. -/
def writeUint (width u : Nat) (out : Bytes) : Bytes := out ++ beBytes width u

/-- `write_uint64` -/
def writeUint64 : Nat → Bytes → Bytes := writeUint 8

/-- `write_uint32` -/
def writeUint32 : Nat → Bytes → Bytes := writeUint 4

/-- `write_uint8` -/
def writeUint8 : Nat → Bytes → Bytes := writeUint 1

/-- A length and so many bytes, as `kvpsync_update_write` writes a key and a value. -/
def writeText (text : Bytes) (out : Bytes) : Bytes := writeUint8 text.length out ++ text

/-- `kvp_update_type_e` -/
def updateType : KvpBody → Nat
  | .empty => 0
  | .flush => 1
  | .start _ => 2
  | .insert _ _ => 3
  | .delete _ _ => 4

/-- `kvpsync_update_write` after the type. -/
def writeBody (updateId : Nat) (body : KvpBody) (out : Bytes) : Except Internal Bytes :=
  match body with
  | .empty => .ok out
  | .flush => .ok out
  | .start resyncId =>
    if updateId ≠ 1 then .error ⟨"invalid update_id in START packet"⟩
    else .ok (writeUint32 resyncId out)
  | .insert key val => .ok (writeText val (writeText key out))
  | .delete key deleteId => .ok (writeUint32 deleteId (writeText key out))

/-- `kvpsync_update_write` -/
def kvpsyncUpdateWrite (update : KvpUpdate) (out : Bytes) : Except Internal Bytes :=
  writeBody update.updateId update.body
    (writeUint8 (updateType update.body)
      (writeUint32 update.updateId (writeUint32 update.syncId (writeUint64 update.okExpiry out))))

/-- `kvpsync_ack_write` -/
def kvpsyncAckWrite (ack : KvpAck) (out : Bytes) : Bytes :=
  writeUint32 ack.updateId (writeUint32 ack.syncId out)

/-! ### Values of the types of the fields -/

/-- The fields of a body are of their types: `uint32_t`, and at most `KVPSYNC_MAX_LEN` bytes. -/
def BodySized : KvpBody → Prop
  | .empty => True
  | .flush => True
  | .start resyncId => resyncId < 2 ^ 32
  | .insert key val => key.length ≤ 255 ∧ val.length ≤ 255
  | .delete key deleteId => key.length ≤ 255 ∧ deleteId < 2 ^ 32

/-- The fields of an update are of their types: `uint64_t` and `uint32_t`. -/
structure UpdateSized (update : KvpUpdate) : Prop where
  okExpiry : update.okExpiry < 2 ^ 64
  syncId : update.syncId < 2 ^ 32
  updateId : update.updateId < 2 ^ 32
  body : BodySized update.body

structure AckSized (ack : KvpAck) : Prop where
  syncId : ack.syncId < 2 ^ 32
  updateId : ack.updateId < 2 ^ 32

/-- A START is the first update. -/
def StartsFirst (update : KvpUpdate) : Prop :=
  ∀ resyncId, update.body = .start resyncId → update.updateId = 1

/-! ### A number, where the packet begins with what is written -/

variable {rbuf out : Bytes} {width u : Nat}

theorem bytesAt_of_prefix {text : Bytes} (holds : out ++ text <+: rbuf) :
    bytesAt rbuf out.length text.length = .ok text := by
  obtain ⟨more, rfl⟩ := holds
  induction text generalizing out with
  | nil => rfl
  | cons byte rest ih =>
    have here : byteAt (out ++ byte :: rest ++ more) out.length = .ok byte := by simp [byteAt]
    have later := @ih (out ++ [byte])
    rw [length_append, append_assoc out [byte] rest] at later
    rw [length_cons, bytesAt, here]
    exact congrArg (fun rest => rest >>= fun rest => Except.ok (byte :: rest)) later

theorem exists_prefix {count : Nat} (reached : out <+: rbuf)
    (room : out.length + count ≤ rbuf.length) :
    ∃ text : Bytes, text.length = count ∧ out ++ text <+: rbuf := by
  obtain ⟨more, rfl⟩ := reached
  rw [length_append] at room
  refine ⟨more.take count, length_take_of_le (by omega), more.drop count, ?_⟩
  rw [append_assoc, take_append_drop]

theorem readUint_stuck (pos : Nat) : readUint width rbuf ⟨pos, false⟩ = .ok (0, ⟨pos, false⟩) := rfl

theorem readUint_written (fits : u < 2 ^ (8 * width)) (holds : writeUint width u out <+: rbuf) :
    readUint width rbuf ⟨out.length, true⟩ = .ok (u, ⟨(writeUint width u out).length, true⟩) := by
  have room : ¬ out.length + width > rbuf.length := by
    have := holds.length_le
    rw [writeUint, length_append, length_beBytes] at this
    exact Nat.not_lt_of_le this
  have bytes := bytesAt_of_prefix holds
  rw [length_beBytes] at bytes
  simp [readUint, room, bytes, writeUint, beNat_beBytes fits]

/-- A number is read that the packet has next, or the packet ends too early. -/
theorem readUint_cases (width : Nat) (reached : out <+: rbuf) :
    (∃ u, u < 2 ^ (8 * width) ∧ writeUint width u out <+: rbuf ∧
      readUint width rbuf ⟨out.length, true⟩ = .ok (u, ⟨(writeUint width u out).length, true⟩)) ∨
    readUint width rbuf ⟨out.length, true⟩ = .ok (0, ⟨out.length, false⟩) := by
  by_cases room : out.length + width ≤ rbuf.length
  · obtain ⟨text, rfl, holds⟩ := exists_prefix reached room
    have written : writeUint text.length (beNat text) out <+: rbuf := by
      rw [writeUint, beBytes_beNat]
      exact holds
    exact .inl ⟨beNat text, beNat_lt text, written, readUint_written (beNat_lt text) written⟩
  · exact .inr (by simp [readUint, Nat.lt_of_not_le room])

@[simp] theorem go_on {α β : Type} (value : α) (next : α → Except Overread β) :
    (Except.ok value >>= next) = next value := rfl

/-! ### What follows the type -/

variable {text : Bytes} {body : KvpBody} {updateId : Nat}

theorem readText_written (fits : text.length ≤ 255) (holds : writeText text out <+: rbuf) :
    readText rbuf ⟨out.length, true⟩ = .ok (some (text, ⟨(writeText text out).length, true⟩)) := by
  have length : writeUint 1 text.length out <+: rbuf := (prefix_append _ _).trans holds
  have room : ¬ (writeUint 1 text.length out).length + text.length > rbuf.length := by
    have := holds.length_le
    rw [writeText, length_append] at this
    exact Nat.not_lt_of_le this
  have read := readUint_written (Nat.lt_succ_of_le fits) length
  have bytes := bytesAt_of_prefix holds
  rw [writeUint8] at bytes
  simp [readText, readUint8, read, room, bytes, writeText, writeUint8]

/-- A text is read that the packet has next, or the packet is not accepted. -/
theorem readText_cases (reached : out <+: rbuf) :
    (∃ text : Bytes, text.length ≤ 255 ∧ writeText text out <+: rbuf ∧
      readText rbuf ⟨out.length, true⟩ = .ok (some (text, ⟨(writeText text out).length, true⟩))) ∨
    readText rbuf ⟨out.length, true⟩ = .ok none := by
  rcases readUint_cases 1 reached with ⟨len, fits, length, read⟩ | short
  · by_cases room : (writeUint 1 len out).length + len ≤ rbuf.length
    · obtain ⟨text, rfl, holds⟩ := exists_prefix length room
      exact .inl ⟨text, Nat.le_of_lt_succ fits, holds,
        readText_written (Nat.le_of_lt_succ fits) holds⟩
    · exact .inr (by simp [readText, readUint8, read, Nat.lt_of_not_le room]; rfl)
  · exact .inr (by simp [readText, readUint8, short]; rfl)

theorem readBody_written {pkt : Bytes} (sized : BodySized body)
    (written : writeBody updateId body out = .ok pkt) (holds : pkt <+: rbuf) :
    readBody rbuf ⟨out.length, true⟩ updateId (updateType body) = .ok (some body) := by
  cases body with
  | empty => rfl
  | flush => rfl
  | start resyncId =>
    by_cases first : updateId = 1
    · rw [writeBody, if_neg (not_not.mpr first), Except.ok.injEq] at written
      subst written
      have read := readUint_written sized holds
      simp [readBody, updateType, first, readUint32, read]
    · rw [writeBody, if_pos first] at written
      exact absurd written nofun
  | insert key val =>
    rw [writeBody, Except.ok.injEq] at written
    subst written
    have keyHolds : writeText key out <+: rbuf :=
      ((prefix_append _ _).trans (prefix_append _ _)).trans holds
    simp [readBody, updateType, readText_written sized.1 keyHolds, readText_written sized.2 holds]
    rfl
  | delete key deleteId =>
    rw [writeBody, Except.ok.injEq] at written
    subst written
    have keyHolds : writeText key out <+: rbuf := (prefix_append _ _).trans holds
    have read := readUint_written sized.2 holds
    simp [readBody, updateType, readText_written sized.1 keyHolds, readUint32, read]

/-- A body is read that the packet has next, or the packet is not accepted. -/
theorem readBody_cases {type : Nat} (reached : out <+: rbuf) :
    (∃ body pkt, updateType body = type ∧ BodySized body ∧ writeBody updateId body out = .ok pkt ∧
      pkt <+: rbuf ∧ readBody rbuf ⟨out.length, true⟩ updateId type = .ok (some body)) ∨
    readBody rbuf ⟨out.length, true⟩ updateId type = .ok none := by
  match type with
  | 0 => exact .inl ⟨.empty, out, rfl, trivial, rfl, reached, rfl⟩
  | 1 => exact .inl ⟨.flush, out, rfl, trivial, rfl, reached, rfl⟩
  | 2 =>
    by_cases first : updateId = 1
    · rcases readUint_cases 4 reached with ⟨resyncId, fits, holds, read⟩ | short
      · have written : writeBody updateId (.start resyncId) out =
            .ok (writeUint32 resyncId out) := if_neg (not_not.mpr first)
        have sized : BodySized (.start resyncId) := fits
        exact .inl ⟨_, _, rfl, sized, written, holds, readBody_written sized written holds⟩
      · exact .inr (by simp [readBody, first, readUint32, short])
    · exact .inr (if_pos first)
  | 3 =>
    rcases readText_cases reached with ⟨key, keyFits, keyHolds, keyRead⟩ | short
    · rcases readText_cases keyHolds with ⟨val, valFits, valHolds, _⟩ | short
      · have sized : BodySized (.insert key val) := ⟨keyFits, valFits⟩
        exact .inl ⟨_, _, rfl, sized, rfl, valHolds, readBody_written sized rfl valHolds⟩
      · exact .inr (by simp [readBody, keyRead, short]; rfl)
    · exact .inr (by simp [readBody, short]; rfl)
  | 4 =>
    rcases readText_cases reached with ⟨key, keyFits, keyHolds, keyRead⟩ | short
    · rcases readUint_cases 4 keyHolds with ⟨deleteId, fits, holds, _⟩ | short
      · have sized : BodySized (.delete key deleteId) := ⟨keyFits, fits⟩
        exact .inl ⟨_, _, rfl, sized, rfl, holds, readBody_written sized rfl holds⟩
      · exact .inr (by simp [readBody, keyRead, readUint32, short])
    · exact .inr (by simp [readBody, short]; rfl)
  | _ + 5 => exact .inr rfl

/-! ### Whole packets -/

variable {update : KvpUpdate} {ack : KvpAck}

/-- What an update has before its body. -/
def writeHeader (okExpiry syncId updateId type : Nat) (out : Bytes) : Bytes :=
  writeUint8 type (writeUint32 updateId (writeUint32 syncId (writeUint64 okExpiry out)))

theorem kvpsyncUpdateWrite_eq :
    kvpsyncUpdateWrite update out =
      writeBody update.updateId update.body (writeHeader update.okExpiry update.syncId
        update.updateId (updateType update.body) out) := rfl

theorem updateType_lt (body : KvpBody) : updateType body < 2 ^ 8 := by
  cases body <;> simp [updateType]

theorem prefix_writeBody {pkt : Bytes} (written : writeBody updateId body out = .ok pkt) :
    out <+: pkt := by
  cases body with
  | empty | flush => exact Except.ok.inj written ▸ prefix_rfl
  | start resyncId =>
    rw [writeBody] at written
    split at written
    · exact absurd written nofun
    · exact Except.ok.inj written ▸ prefix_append _ _
  | insert key val =>
    refine Except.ok.inj written ▸ ?_
    simp [writeText, writeUint8, writeUint]
  | delete key deleteId =>
    refine Except.ok.inj written ▸ ?_
    simp [writeText, writeUint8, writeUint32, writeUint]

/-- Only a START that is not the first update is not written. -/
theorem kvpsyncUpdateWrite_ok (first : StartsFirst update) (out : Bytes) :
    ∃ pkt, kvpsyncUpdateWrite update out = .ok pkt := by
  obtain ⟨okExpiry, syncId, updateId, body⟩ := update
  cases body with
  | start resyncId => exact ⟨_, if_neg (not_not.mpr (first resyncId rfl))⟩
  | _ => exact ⟨_, rfl⟩

/-- The reader goes through the header as it was written. -/
theorem kvpsyncUpdateRead_header {okExpiry syncId updateId type : Nat}
    (expiryFits : okExpiry < 2 ^ 64) (syncFits : syncId < 2 ^ 32) (updateFits : updateId < 2 ^ 32)
    (typeFits : type < 2 ^ 8) (holds : writeHeader okExpiry syncId updateId type [] <+: rbuf) :
    kvpsyncUpdateRead rbuf = (do
      let some body ← readBody rbuf
        ⟨(writeHeader okExpiry syncId updateId type []).length, true⟩ updateId type | return none
      return some ⟨okExpiry, syncId, updateId, body⟩) := by
  have updateHolds := (prefix_append _ _).trans holds
  have syncHolds := (prefix_append _ _).trans updateHolds
  have expiryHolds := (prefix_append _ _).trans syncHolds
  have expiryRead := readUint_written expiryFits expiryHolds
  have syncRead := readUint_written syncFits syncHolds
  have updateRead := readUint_written updateFits updateHolds
  have typeRead := readUint_written typeFits holds
  simp only [kvpsyncUpdateRead, readUint64, readUint32, readUint8, writeHeader, writeUint64,
    writeUint32, writeUint8, length_nil] at *
  rw [expiryRead, go_on, syncRead, go_on, updateRead, go_on, typeRead, go_on]
  rfl

theorem kvpsyncUpdateRead_written {pkt : Bytes} (sized : UpdateSized update)
    (written : kvpsyncUpdateWrite update [] = .ok pkt) (holds : pkt <+: rbuf) :
    kvpsyncUpdateRead rbuf = .ok (some update) := by
  rw [kvpsyncUpdateWrite_eq] at written
  rw [kvpsyncUpdateRead_header sized.okExpiry sized.syncId sized.updateId (updateType_lt _)
    ((prefix_writeBody written).trans holds), readBody_written sized.body written holds]
  rfl

/-- The packet begins with a header, or it is not accepted. -/
theorem header_cases (rbuf : Bytes) :
    (∃ okExpiry syncId updateId type, okExpiry < 2 ^ 64 ∧ syncId < 2 ^ 32 ∧ updateId < 2 ^ 32 ∧
      type < 2 ^ 8 ∧ writeHeader okExpiry syncId updateId type [] <+: rbuf) ∨
    kvpsyncUpdateRead rbuf = .ok none := by
  have beginning : [] <+: rbuf := nil_prefix
  rcases readUint_cases 8 beginning with ⟨okExpiry, expiryFits, expiryHolds, expiryRead⟩ | short
  swap
  · rw [length_nil] at short
    exact .inr (by
      simp [kvpsyncUpdateRead, readUint64, readUint32, readUint8, short, readUint_stuck]; rfl)
  rw [length_nil] at expiryRead
  rcases readUint_cases 4 expiryHolds with ⟨syncId, syncFits, syncHolds, syncRead⟩ | short
  swap
  · exact .inr (by
      simp [kvpsyncUpdateRead, readUint64, readUint32, readUint8, expiryRead, short,
        readUint_stuck]; rfl)
  rcases readUint_cases 4 syncHolds with ⟨updateId, updateFits, updateHolds, updateRead⟩ | short
  swap
  · exact .inr (by
      simp [kvpsyncUpdateRead, readUint64, readUint32, readUint8, expiryRead, syncRead, short,
        readUint_stuck]; rfl)
  rcases readUint_cases 1 updateHolds with ⟨type, typeFits, typeHolds, _⟩ | short
  swap
  · exact .inr (by
      simp [kvpsyncUpdateRead, readUint64, readUint32, readUint8, expiryRead, syncRead,
        updateRead, short]; rfl)
  exact .inl ⟨okExpiry, syncId, updateId, type, expiryFits, syncFits, updateFits, typeFits,
    typeHolds⟩

/-- An update is read that the packet begins with, or the packet is not accepted. -/
theorem kvpsyncUpdateRead_cases (rbuf : Bytes) :
    (∃ update pkt, UpdateSized update ∧ kvpsyncUpdateWrite update [] = .ok pkt ∧ pkt <+: rbuf ∧
      kvpsyncUpdateRead rbuf = .ok (some update)) ∨
    kvpsyncUpdateRead rbuf = .ok none := by
  rcases header_cases rbuf with ⟨okExpiry, syncId, updateId, type, expiryFits, syncFits,
    updateFits, typeFits, holds⟩ | short
  swap
  · exact .inr short
  have read := kvpsyncUpdateRead_header expiryFits syncFits updateFits typeFits holds
  rcases @readBody_cases _ _ updateId type holds with ⟨body, pkt, rfl, sized, written, bodyHolds,
    _⟩ | short
  · have update : UpdateSized ⟨okExpiry, syncId, updateId, body⟩ :=
      ⟨expiryFits, syncFits, updateFits, sized⟩
    exact .inl ⟨_, pkt, update, written, bodyHolds,
      kvpsyncUpdateRead_written update written bodyHolds⟩
  · rw [short] at read
    exact .inr read

theorem kvpsyncAckRead_written (sized : AckSized ack) (holds : kvpsyncAckWrite ack [] <+: rbuf) :
    kvpsyncAckRead rbuf = .ok (some ack) := by
  have syncRead := readUint_written sized.syncId ((prefix_append _ _).trans holds)
  have updateRead := readUint_written sized.updateId holds
  rw [length_nil] at syncRead
  simp only [writeUint32] at updateRead
  simp [kvpsyncAckRead, readUint32, syncRead, updateRead]

theorem kvpsyncAckRead_cases (rbuf : Bytes) :
    (∃ ack, AckSized ack ∧ kvpsyncAckWrite ack [] <+: rbuf ∧ kvpsyncAckRead rbuf = .ok (some ack)) ∨
    kvpsyncAckRead rbuf = .ok none := by
  have beginning : [] <+: rbuf := nil_prefix
  rcases readUint_cases 4 beginning with ⟨syncId, syncFits, syncHolds, syncRead⟩ | short
  swap
  · rw [length_nil] at short
    exact .inr (by simp [kvpsyncAckRead, readUint32, short, readUint_stuck])
  rw [length_nil] at syncRead
  rcases readUint_cases 4 syncHolds with ⟨updateId, updateFits, updateHolds, _⟩ | short
  swap
  · exact .inr (by simp [kvpsyncAckRead, readUint32, syncRead, short])
  have sized : AckSized ⟨syncId, updateId⟩ := ⟨syncFits, updateFits⟩
  exact .inl ⟨_, sized, updateHolds, kvpsyncAckRead_written sized updateHolds⟩

/-! ### The codec -/

/-- What is written is read back, no byte is read from outside of a packet, and what is accepted was
written: the packet begins with it. -/
theorem codec :
    (∀ update, UpdateSized update → StartsFirst update → ∃ pkt,
      kvpsyncUpdateWrite update [] = .ok pkt ∧ kvpsyncUpdateRead pkt = .ok (some update)) ∧
    (∀ ack, AckSized ack → kvpsyncAckRead (kvpsyncAckWrite ack []) = .ok (some ack)) ∧
    (∀ rbuf, ∃ result, kvpsyncUpdateRead rbuf = .ok result ∧ ∀ update, result = some update →
      UpdateSized update ∧ ∃ pkt, kvpsyncUpdateWrite update [] = .ok pkt ∧ pkt <+: rbuf) ∧
    (∀ rbuf, ∃ result, kvpsyncAckRead rbuf = .ok result ∧ ∀ ack, result = some ack →
      AckSized ack ∧ kvpsyncAckWrite ack [] <+: rbuf) := by
  refine ⟨fun update sized first => ?_, fun ack sized => ?_, fun rbuf => ?_, fun rbuf => ?_⟩
  · obtain ⟨pkt, written⟩ := kvpsyncUpdateWrite_ok first []
    exact ⟨pkt, written, kvpsyncUpdateRead_written sized written prefix_rfl⟩
  · exact kvpsyncAckRead_written sized prefix_rfl
  · rcases kvpsyncUpdateRead_cases rbuf with ⟨update, pkt, sized, written, holds, read⟩ | refused
    · refine ⟨some update, read, fun other same => ?_⟩
      rw [← Option.some.inj same]
      exact ⟨sized, pkt, written, holds⟩
    · exact ⟨none, refused, nofun⟩
  · rcases kvpsyncAckRead_cases rbuf with ⟨ack, sized, holds, read⟩ | refused
    · refine ⟨some ack, read, fun other same => ?_⟩
      rw [← Option.some.inj same]
      exact ⟨sized, holds⟩
    · exact ⟨none, refused, nofun⟩

/-- A deletion on the wire. -/
example : kvpsyncUpdateWrite ⟨99, 7, 258, .delete [97, 98] 5⟩ [] =
    .ok [0, 0, 0, 0, 0, 0, 0, 99, 0, 0, 0, 7, 0, 0, 1, 2, 4, 2, 97, 98, 0, 0, 0, 5] := by
  decide

/-- A deletion is read back. -/
theorem codec_delete : ∃ pkt, kvpsyncUpdateWrite ⟨99, 7, 258, .delete [97, 98] 5⟩ [] = .ok pkt ∧
    kvpsyncUpdateRead pkt = .ok (some ⟨99, 7, 258, .delete [97, 98] 5⟩) :=
  codec.1 ⟨99, 7, 258, .delete [97, 98] 5⟩ ⟨by decide, by decide, by decide, by decide, by decide⟩
    nofun

end Pkts

end Splintermail
