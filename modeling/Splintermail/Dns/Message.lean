/-
This file says what a DNS message is, apart from how the server writes one, and proves that
the writers of the server write its parts.

In a message that is encoded the counts of the sections are the numbers of their records,
and the length of the data of a record is that of its data. The writers have these lengths
as constants.
-/

import Splintermail.Dns.Answer

namespace Splintermail

open List

namespace Dns

def be16 (n : Nat) : Bytes := [UInt8.ofNat (n >>> 8), UInt8.ofNat n]

def be32 (n : Nat) : Bytes :=
  [UInt8.ofNat (n >>> 24), UInt8.ofNat (n >>> 16), UInt8.ofNat (n >>> 8), UInt8.ofNat n]

/-- Labels with their lengths, up to the empty one. -/
def encodeName (labels : List Bytes) : Bytes :=
  labels.flatMap (fun l => UInt8.ofNat l.length :: l) ++ [0]

/-- The owner of a record: a name, or the name of the question by a pointer to it. -/
inductive Owner where
  | name (labels : List Bytes)
  | question
  deriving DecidableEq

def Owner.encode : Owner → Bytes
  | name labels => encodeName labels
  | question => be16 (0xC000 + dnsHdrSize)

structure ResourceRecord where
  owner : Owner
  rrtype : Nat
  rrclass : Nat := 1
  ttl : Nat
  data : Bytes
  deriving DecidableEq

open ResourceRecord

def ResourceRecord.encode (rr : ResourceRecord) : Bytes :=
  rr.owner.encode ++ (be16 rr.rrtype ++ (be16 rr.rrclass ++ (be32 rr.ttl ++
    (be16 rr.data.length ++ rr.data))))

/-- A response to one question. -/
structure Message where
  id : Nat
  aa : Bool
  tc : Bool := false
  rd : Bool
  rcode : Nat
  question : List Bytes
  qtype : Nat
  qclass : Nat
  answers : List ResourceRecord
  authorities : List ResourceRecord
  additionals : List ResourceRecord

namespace Message

/-- The header, with the counts of the sections. -/
def header (msg : Message) : Bytes :=
  be16 msg.id ++ ([UInt8.ofNat (0x80 + 4 * msg.aa.toNat + 2 * msg.tc.toNat + msg.rd.toNat)] ++
    ([UInt8.ofNat msg.rcode] ++ (be16 1 ++ (be16 msg.answers.length ++
      (be16 msg.authorities.length ++ be16 msg.additionals.length)))))

/-- The question and the records. -/
def body (msg : Message) : Bytes :=
  (encodeName msg.question ++ (be16 msg.qtype ++ be16 msg.qclass)) ++
    (msg.answers ++ msg.authorities ++ msg.additionals).flatMap encode

def encode (msg : Message) : Bytes := msg.header ++ msg.body

/-- The numbers fit into their fields, and the name of the question is one. -/
structure Sound (msg : Message) : Prop where
  id : msg.id < 2 ^ 16
  rcode : msg.rcode < 2 ^ 4
  labels : ∀ l ∈ msg.question, 1 ≤ l.length ∧ l.length ≤ 63
  name : (encodeName msg.question).length ≤ 255
  qtype : msg.qtype < 2 ^ 16
  qclass : msg.qclass < 2 ^ 16
  counts : msg.answers.length < 2 ^ 16 ∧ msg.authorities.length < 2 ^ 16 ∧
    msg.additionals.length < 2 ^ 16
  records : ∀ rr ∈ msg.answers ++ msg.authorities ++ msg.additionals,
    rr.rrtype < 2 ^ 16 ∧ rr.rrclass < 2 ^ 16 ∧ rr.ttl < 2 ^ 32 ∧ rr.data.length < 2 ^ 16

theorem length_header (msg : Message) : msg.header.length = dnsHdrSize := rfl

end Message

/-! ### The records of the server -/

def soaRecord : ResourceRecord where
  owner := .name zoneName
  rrtype := typeSoa
  ttl := soaTtl
  data := encodeName mname ++ (encodeName rname ++
    (be32 serial ++ (be32 300 ++ (be32 60 ++ (be32 86400 ++ be32 60)))))

def nsRecord (name : List Bytes) : ResourceRecord where
  owner := .name zoneName
  rrtype := typeNs
  ttl := nsTtl
  data := encodeName name

def aRecord : ResourceRecord where
  owner := .question
  rrtype := typeA
  ttl := aTtl
  data := [127, 0, 0, 1]

def aaaaRecord : ResourceRecord where
  owner := .question
  rrtype := typeAaaa
  ttl := aaaaTtl
  data := be32 0 ++ (be32 0 ++ (be32 0 ++ be32 1))

def caaRecord : ResourceRecord where
  owner := .question
  rrtype := typeCaa
  ttl := caaTtl
  data := [UInt8.ofNat caaFlags] ++ ([UInt8.ofNat caaTag.length] ++ (caaTag ++ caaValue))

def secretRecord (secret : Bytes) : ResourceRecord where
  owner := .question
  rrtype := typeTxt
  ttl := txtTtl
  data := UInt8.ofNat secret.length :: secret

/-- The record of EDNS, whose class is the size of packets that is supported. -/
def ednsRecord : ResourceRecord where
  owner := .name []
  rrtype := edns
  rrclass := udpMaxSize
  ttl := 0
  data := []

/-! ### What the writers write -/

/-- Bytes written to the buffer. -/
def Out.emit (out : Out) (bytes : Bytes) : Out where
  mem := copyTo out.mem out.used bytes
  used := out.used + bytes.length

section Emit

variable (out : Out)

@[simp] theorem emit_emit (first second : Bytes) :
    (out.emit first).emit second = out.emit (first ++ second) := by
  unfold Out.emit
  dsimp only
  rw [copyTo_append, length_append, Nat.add_assoc]

@[simp] theorem putUint8_eq (n : Nat) : putUint8 n out = out.emit [UInt8.ofNat n] := rfl

@[simp] theorem putUint16_eq (n : Nat) : putUint16 n out = out.emit (be16 n) := rfl

@[simp] theorem putUint32_eq (n : Nat) : putUint32 n out = out.emit (be32 n) := rfl

@[simp] theorem putLstr_eq (l : Bytes) : putLstr l out = out.emit l := rfl

@[simp] theorem putNamePtr_eq : putNamePtr dnsHdrSize out = out.emit Owner.question.encode := rfl

@[simp] theorem putRrHdr_eq (rrtype ttl rdlen : Nat) : putRrHdr rrtype ttl rdlen out =
    out.emit (be16 rrtype ++ (be16 1 ++ (be32 ttl ++ be16 rdlen))) := by
  unfold putRrHdr
  simp only [putUint16_eq, putUint32_eq, emit_emit, append_assoc]

@[simp] theorem putName_eq (labels : List Bytes) :
    putName labels out = out.emit (encodeName labels) := by
  induction labels generalizing out with
  | nil => rfl
  | cons l labels ih =>
    rw [putName, ih, putLstr_eq, putUint8_eq, emit_emit, emit_emit]
    unfold encodeName
    rw [flatMap_cons, append_assoc]
    rfl

end Emit

/-- The writer writes a record if there is space for it. -/
def Writes (arg : Bytes) (writer : Writer) (rr : ResourceRecord) : Prop :=
  ∀ cap out, out.used + rr.encode.length ≤ cap →
    writer arg dnsHdrSize cap out = .ok (out.emit rr.encode)

theorem writeSoa_writes (arg : Bytes) : Writes arg writeSoa soaRecord := by
  intro cap out room
  have room : out.used + 104 ≤ cap := room
  unfold writeSoa
  dsimp only
  rw [if_neg (Nat.not_lt_of_le room)]
  simp only [putName_eq, putRrHdr_eq, putUint32_eq, emit_emit, append_assoc]
  rfl

theorem writeNs_writes (arg : Bytes) {name : List Bytes} (size : (encodeName name).length = 22) :
    Writes arg (fun _ _ cap out => writeNs name cap out) (nsRecord name) := by
  intro cap out room
  have length : (nsRecord name).encode.length = 33 + (encodeName name).length := by
    unfold encode
    simp only [length_append]
    show 23 + (2 + (2 + (4 + (2 + (encodeName name).length)))) = 33 + (encodeName name).length
    omega
  rw [length, size] at room
  have room : out.used + 55 ≤ cap := room
  show writeNs name cap out = _
  unfold writeNs
  dsimp only
  rw [if_neg (Nat.not_lt_of_le room)]
  simp only [putName_eq, putRrHdr_eq, emit_emit, append_assoc]
  unfold encode nsRecord
  dsimp only
  rw [size]
  rfl

theorem writeA_writes (arg : Bytes) : Writes arg writeA aRecord := by
  intro cap out room
  have room : out.used + (2 + rrHdrSize + 4) ≤ cap := room
  unfold writeA
  dsimp only
  rw [if_neg (Nat.not_lt_of_le room)]
  simp only [putNamePtr_eq, putRrHdr_eq, putUint8_eq, emit_emit, append_assoc]
  rfl

theorem writeAaaa_writes (arg : Bytes) : Writes arg writeAaaa aaaaRecord := by
  intro cap out room
  have room : out.used + (2 + rrHdrSize + 16) ≤ cap := room
  unfold writeAaaa
  dsimp only
  rw [if_neg (Nat.not_lt_of_le room)]
  simp only [putNamePtr_eq, putRrHdr_eq, putUint32_eq, emit_emit, append_assoc]
  rfl

theorem writeCaa_writes (arg : Bytes) : Writes arg writeCaa caaRecord := by
  intro cap out room
  have room : out.used + (2 + rrHdrSize + (2 + caaTag.length + caaValue.length)) ≤ cap := room
  unfold writeCaa
  dsimp only
  rw [if_neg (Nat.not_lt_of_le room)]
  simp only [putNamePtr_eq, putRrHdr_eq, putUint8_eq, putLstr_eq, emit_emit, append_assoc]
  rfl

theorem length_secretRecord (secret : Bytes) :
    (secretRecord secret).encode.length = 13 + secret.length := by
  unfold encode
  simp only [length_append]
  show 2 + (2 + (2 + (4 + (2 + (secret.length + 1))))) = 13 + secret.length
  omega

theorem writeSecret_writes {secret : Bytes} (short : secret.length ≤ 255) :
    Writes secret writeSecret (secretRecord secret) := by
  intro cap out room
  rw [length_secretRecord] at room
  unfold writeSecret
  dsimp only
  rw [if_neg (by unfold rrHdrSize; omega), if_neg (Nat.not_lt_of_le short)]
  simp only [putNamePtr_eq, putRrHdr_eq, putUint8_eq, putLstr_eq, emit_emit, append_assoc]
  unfold encode secretRecord
  dsimp only
  rw [length_cons, Nat.add_comm 1]
  rfl

theorem writeEdns_eq {cap : Nat} {out : Out} (room : out.used + bareEdnsSize ≤ cap) :
    writeEdns cap out = out.emit ednsRecord.encode := by
  unfold writeEdns
  rw [if_neg (Nat.not_lt_of_le room)]
  simp only [putUint8_eq, putUint16_eq, putUint32_eq, emit_emit, append_assoc]
  rfl

theorem writeResponseHdr_eq {msg : Message} {hdr : DnsHdr} {cap : Nat} (mem : Nat → UInt8)
    (room : dnsHdrSize ≤ cap) (id : hdr.id = msg.id) (rd : hdr.rd = msg.rd)
    (single : hdr.qdcount = 1) (rcode : msg.rcode < 16) :
    writeResponseHdr hdr msg.rcode msg.aa msg.tc msg.answers.length msg.authorities.length
      msg.additionals.length cap ⟨mem, 0⟩ = Out.emit ⟨mem, 0⟩ msg.header := by
  have flags : ∀ aa tc rd : Bool, (true.toNat <<< 7 ||| 0 <<< 3 ||| aa.toNat <<< 2 |||
      tc.toNat <<< 1 ||| rd.toNat) = 0x80 + 4 * aa.toNat + 2 * tc.toNat + rd.toNat := by decide
  have codes : ∀ code : Fin 16, (false.toNat <<< 7 ||| 0x00 ||| (code.val &&& 0x0f)) = code := by
    decide
  unfold writeResponseHdr writeHdr
  dsimp only
  rw [if_neg (by show ¬cap < 0 + dnsHdrSize; omega), flags, codes ⟨msg.rcode, rcode⟩, id, rd, single]
  simp only [putUint8_eq, putUint16_eq, emit_emit, append_assoc]
  rfl

end Dns

end Splintermail
