/-
This file proves what the DNS server answers: for a packet that it accepts and that asks one
question of the domain, the response is an encoded message that depends on the labels of
the question, and not on how they stand in the packet.

No response is longer than a packet without EDNS may be, so every writer finds the space it
needs and nothing is truncated. A challenge is the longest answer, but its question is short.
-/

import Splintermail.Dns.Enumeration
import Splintermail.Dns.Message

namespace Splintermail

open List

namespace Dns

variable {q : Packet} {pkt : DnsPkt} {labels : List Lstr}

/-! ### The question -/

/-- The labels as bytes. -/
def texts (q : Packet) (labels : List Lstr) : List Bytes := labels.map (Lstr.bytes q)

theorem length_bytes {l : Lstr} (inside : l.off + l.len ≤ q.len) : (l.bytes q).length = l.len := by
  unfold Packet.len at inside
  unfold Lstr.bytes
  rw [length_take, length_drop]
  omega

/-- The bytes of labels with their lengths. -/
def spelled (names : List Bytes) : Bytes := names.flatMap fun l => UInt8.ofNat l.length :: l

theorem length_encodeName (inside : ∀ l ∈ labels, l.off + l.len ≤ q.len) :
    (encodeName (texts q labels)).length = wireLen labels := by
  induction labels with
  | nil => rfl
  | cons l labels ih =>
    have rest := ih fun other mem => inside other (.tail _ mem)
    rw [wireLen_cons, ← rest]
    unfold encodeName texts
    rw [map_cons, flatMap_cons, length_append, length_append, length_cons,
      length_bytes (inside l mem_cons_self), length_append]
    omega

theorem foldlM_needed (needed : Nat) :
    labels.foldlM (fun needed l => (.ok (needed + (l.len + 1)) : Except ReadFault Nat)) needed =
      .ok (needed + (labels.map (·.len + 1)).sum) := by
  induction labels generalizing needed with
  | nil => rfl
  | cons l labels ih =>
    rw [foldlM_cons]
    refine (ih (needed + (l.len + 1))).trans ?_
    rw [map_cons, sum_cons, Nat.add_assoc]

theorem foldlM_spell (inside : ∀ l ∈ labels, l.off + l.len ≤ q.len) (out : Out) :
    labels.foldlM (fun out l => do
      let bytes ← q.readBytes l.off l.len
      return putLstr bytes (putUint8 l.len out)) out =
        .ok (out.emit (spelled (texts q labels))) := by
  induction labels generalizing out with
  | nil =>
    show Except.ok out = .ok (out.emit [])
    unfold Out.emit
    rw [copyTo_nil]
    rfl
  | cons l labels ih =>
    have here := inside l mem_cons_self
    rw [foldlM_cons, readBytes_eq here]
    refine (ih (fun other mem => inside other (.tail _ mem)) _).trans ?_
    rw [putLstr_eq, putUint8_eq, emit_emit, emit_emit]
    unfold spelled texts
    rw [map_cons, flatMap_cons, length_bytes here]
    rfl

/-- The question as it is written again. -/
def questionBytes (names : List Bytes) (qtype qclass : Nat) : Bytes :=
  encodeName names ++ (be16 qtype ++ be16 qclass)

theorem writeQstn_eq {qstn : DnsQstn} {cap : Nat} {out : Out} (single : qstn.qdcount = 1)
    (name : Name q qstn.off labels) (room : out.used + (wireLen labels + 4) ≤ cap) :
    Returns (fun fuel => writeQstn q fuel qstn cap out)
      (out.emit (questionBytes (texts q labels) qstn.qtype qstn.qclass)) := by
  unfold writeQstn
  simp only [single, ne_eq, not_true_eq_false, if_false]
  obtain ⟨_, counted, -⟩ := forLabels_eq name (tracks_start _) (foldlM_needed 5)
  obtain ⟨_, spelt, -⟩ := forLabels_eq name (tracks_start _) (foldlM_spell name.inside out)
  refine counted.bind ?_
  have needed : ¬cap < out.used + (5 + (labels.map (·.len + 1)).sum) := by
    unfold wireLen at room
    omega
  simp only [needed, if_false]
  refine spelt.bind ?_
  rw [putUint16_eq, putUint16_eq, putUint8_eq, emit_emit, emit_emit, emit_emit]
  unfold questionBytes encodeName spelled
  simp only [append_assoc]
  exact .pure

theorem length_questionBytes (names : List Bytes) (qtype qclass : Nat) :
    (questionBytes names qtype qclass).length = (encodeName names).length + 4 := by
  unfold questionBytes
  rw [length_append]
  rfl

/-! ### Responses -/

/-- The bytes of records. -/
def recordBytes (rrs : List ResourceRecord) : Bytes := rrs.flatMap ResourceRecord.encode

theorem recordBytes_append (first second : List ResourceRecord) :
    recordBytes (first ++ second) = recordBytes first ++ recordBytes second :=
  flatMap_append

theorem writeAll_eq {arg : Bytes} {cap : Nat} {writers : List Writer} {rrs : List ResourceRecord}
    (writes : List.Forall₂ (Writes arg) writers rrs) {out : Out}
    (room : out.used + (recordBytes rrs).length ≤ cap) (count : Nat) :
    writeAll arg cap writers out out.used count =
      .ok (out.emit (recordBytes rrs), (out.emit (recordBytes rrs)).used, count + rrs.length) := by
  induction writes generalizing out count with
  | nil =>
    have same : out.emit (recordBytes []) = out := by
      unfold recordBytes Out.emit
      rw [flatMap_nil, copyTo_nil]
      rfl
    rw [same]
    rfl
  | @cons writer rr writers rrs first _ ih =>
    have split : recordBytes (rr :: rrs) = rr.encode ++ recordBytes rrs := flatMap_cons
    rw [split, length_append] at room
    have here : (out.emit rr.encode).used ≤ cap := by
      show out.used + rr.encode.length ≤ cap
      omega
    rw [writeAll, first cap out (Nat.le_trans (by omega) room)]
    refine (if_pos here).trans ?_
    rw [@ih (out.emit rr.encode) (by show out.used + rr.encode.length + _ ≤ cap; omega),
      split, emit_emit, length_cons, Nat.add_assoc, Nat.add_comm 1]

/-- The additional records of a response. -/
def additional (found : Bool) : List ResourceRecord := if found then [ednsRecord] else []

/-- The buffer with an encoded message at its start. -/
def withMessage (rbuf : Nat → UInt8) (msg : Message) : Nat → UInt8 :=
  copyTo (copyTo rbuf dnsHdrSize msg.body) 0 msg.header

/-- The response to a query whose header, question and answers are given. -/
def responseTo (hdr : DnsHdr) (names : List Bytes) (qtype qclass : Nat) (found : Bool)
    (rcode : Nat) (aa : Bool) (answers authorities : List ResourceRecord) : Message where
  id := hdr.id
  aa := aa
  rd := hdr.rd
  rcode := rcode
  question := names
  qtype := qtype
  qclass := qclass
  answers := answers
  authorities := authorities
  additionals := additional found

section Responses

variable {cap rcode : Nat} {rbuf : Nat → UInt8}

/-- The end of a response: EDNS and the header. -/
theorem finishResp_eq {msg : Message} {out : Out} (single : pkt.hdr.qdcount = 1)
    (id : pkt.hdr.id = msg.id) (rd : pkt.hdr.rd = msg.rd) (code : msg.rcode < 16)
    (untruncated : msg.tc = false) (edns : msg.additionals = additional pkt.edns.found)
    (written : out = Out.emit ⟨rbuf, dnsHdrSize⟩ (questionBytes msg.question msg.qtype msg.qclass ++
      recordBytes (msg.answers ++ msg.authorities)))
    (room : dnsHdrSize + msg.body.length ≤ cap) :
    finishResp pkt msg.rcode msg.aa msg.answers.length msg.authorities.length cap out.used out =
      (msg.encode.length, withMessage rbuf msg) := by
  have body : msg.body = questionBytes msg.question msg.qtype msg.qclass ++
      recordBytes (msg.answers ++ msg.authorities) ++ recordBytes msg.additionals := by
    unfold Message.body questionBytes
    rw [append_assoc _ (recordBytes _), ← recordBytes_append]
    rfl
  have length : msg.encode.length = dnsHdrSize + msg.body.length := by
    unfold Message.encode
    rw [length_append, msg.length_header]
  have header := @writeResponseHdr_eq msg pkt.hdr cap
  have all : ∀ last : Out, last = Out.emit ⟨rbuf, dnsHdrSize⟩ msg.body →
      (last.used, (writeResponseHdr pkt.hdr msg.rcode msg.aa (decide (cap < last.used))
        msg.answers.length msg.authorities.length msg.additionals.length cap
        { last with used := 0 }).mem) = (msg.encode.length, withMessage rbuf msg) := by
    rintro last rfl
    have used : (Out.emit ⟨rbuf, dnsHdrSize⟩ msg.body).used = dnsHdrSize + msg.body.length := rfl
    rw [used, decide_eq_false (Nat.not_lt_of_le room), ← untruncated,
      header _ (by omega) id rd single code, length]
    rfl
  unfold finishResp
  cases found : pkt.edns.found with
  | false =>
    rw [found] at edns
    rw [edns] at body all
    have same : recordBytes (additional false) = [] := rfl
    rw [same, append_nil] at body
    rw [← body] at written
    exact all out written
  | true =>
    rw [found] at edns
    have written' : out.emit ednsRecord.encode = Out.emit ⟨rbuf, dnsHdrSize⟩ msg.body := by
      rw [written, emit_emit, body, edns]
      have same : recordBytes (additional true) = ednsRecord.encode :=
        append_nil _
      rw [same]
    have fits : (out.emit ednsRecord.encode).used ≤ cap := by
      rw [written']
      exact room
    rw [edns] at all
    simp only [if_true]
    rw [writeEdns_eq (by exact fits), if_pos fits]
    exact all _ written'

theorem length_body (hdr : DnsHdr) (names : List Bytes) (qtype qclass : Nat) (found : Bool)
    (rcode : Nat) (aa : Bool) (answers authorities : List ResourceRecord) :
    (responseTo hdr names qtype qclass found rcode aa answers authorities).body.length =
      (encodeName names).length + 4 + (recordBytes (answers ++ authorities)).length +
        if found then bareEdnsSize else 0 := by
  have edns : (recordBytes (additional found)).length = if found then bareEdnsSize else 0 := by
    cases found <;> rfl
  rw [← edns, Nat.add_assoc, ← length_append, ← recordBytes_append,
    ← length_questionBytes names qtype qclass, ← length_append]
  rfl

/-- A response to the question of a packet. -/
def DnsPkt.responseTo (pkt : DnsPkt) (names : List Bytes) (rcode : Nat) (aa : Bool)
    (answers authorities : List ResourceRecord) : Message :=
  Dns.responseTo pkt.hdr names pkt.qstn.qtype pkt.qstn.qclass pkt.edns.found rcode aa answers
    authorities

theorem negativeResp_eq (single : pkt.hdr.qdcount = 1) (asked : pkt.qstn.qdcount = 1)
    (name : Name q pkt.qstn.off labels) (code : rcode < 16) (aa soa : Bool)
    (room : dnsHdrSize + (pkt.responseTo (texts q labels) rcode aa []
      (if soa then [soaRecord] else [])).body.length ≤ cap) :
    Returns (fun fuel => negativeResp q fuel pkt rcode aa soa rbuf cap)
      ((pkt.responseTo (texts q labels) rcode aa [] (if soa then [soaRecord] else [])).encode.length,
        withMessage rbuf
          (pkt.responseTo (texts q labels) rcode aa [] (if soa then [soaRecord] else []))) := by
  have sized := room
  unfold DnsPkt.responseTo at sized
  rw [length_body, length_encodeName name.inside] at sized
  unfold negativeResp
  have question := @writeQstn_eq q labels pkt.qstn
    (cap - if pkt.edns.found then bareEdnsSize else 0) ⟨rbuf, dnsHdrSize⟩ asked name
    (by dsimp only; omega)
  refine question.bind ?_
  have length := length_questionBytes (texts q labels) pkt.qstn.qtype pkt.qstn.qclass
  rw [length_encodeName name.inside] at length
  have fits : (Out.emit ⟨rbuf, dnsHdrSize⟩ (questionBytes (texts q labels) pkt.qstn.qtype
      pkt.qstn.qclass)).used ≤ cap := by
    show dnsHdrSize + _ ≤ cap
    omega
  have finish := @finishResp_eq pkt cap rbuf (pkt.responseTo (texts q labels) rcode aa []
    (if soa then [soaRecord] else []))
  simp only [if_pos fits]
  cases soa with
  | false =>
    have written := finish single rfl rfl code rfl rfl rfl room
    have same : recordBytes [] = [] := rfl
    simp only [DnsPkt.responseTo, Dns.responseTo, Bool.false_eq_true, if_false, append_nil,
      same] at written ⊢
    exact ⟨0, fun fuel _ => congrArg Except.ok written⟩
  | true =>
    have one : (recordBytes ([] ++ [soaRecord])).length = 104 := rfl
    have more : (Out.emit ⟨rbuf, dnsHdrSize⟩ (questionBytes (texts q labels) pkt.qstn.qtype
        pkt.qstn.qclass)).used + soaRecord.encode.length ≤
        cap - if pkt.edns.found then bareEdnsSize else 0 := by
      show dnsHdrSize + _ + 104 ≤ _
      simp only [if_true, one] at sized
      omega
    have soaFits : ((Out.emit ⟨rbuf, dnsHdrSize⟩ (questionBytes (texts q labels) pkt.qstn.qtype
        pkt.qstn.qclass)).emit soaRecord.encode).used ≤ cap :=
      Nat.le_trans more (Nat.sub_le _ _)
    have written := finish single rfl rfl code rfl rfl rfl room
    have same : recordBytes ([] ++ [soaRecord]) = soaRecord.encode := append_nil _
    simp only [DnsPkt.responseTo, Dns.responseTo, if_true, same] at written ⊢
    have wrote : writeSoa [] 0 _ _ = _ := writeSoa_writes [] _ _ more
    rw [wrote]
    refine Returns.pure.bind ?_
    rw [emit_emit] at soaFits ⊢
    simp only [if_pos soaFits]
    exact ⟨0, fun fuel _ => congrArg Except.ok written⟩

theorem positiveResp_eq {arg : Bytes} {writers : List Writer} {answers : List ResourceRecord}
    (writes : List.Forall₂ (Writes arg) writers answers) (single : pkt.hdr.qdcount = 1)
    (asked : pkt.qstn.qdcount = 1) (name : Name q pkt.qstn.off labels)
    (room : dnsHdrSize + (pkt.responseTo (texts q labels) 0 true answers []).body.length ≤ cap) :
    Returns (fun fuel => positiveResp q fuel writers arg pkt rbuf cap)
      ((pkt.responseTo (texts q labels) 0 true answers []).encode.length,
        withMessage rbuf (pkt.responseTo (texts q labels) 0 true answers [])) := by
  have sized := room
  unfold DnsPkt.responseTo at sized
  rw [length_body, length_encodeName name.inside, append_nil] at sized
  unfold positiveResp
  have question := @writeQstn_eq q labels pkt.qstn
    (cap - if pkt.edns.found then bareEdnsSize else 0) ⟨rbuf, dnsHdrSize⟩ asked name
    (by dsimp only; omega)
  refine question.bind ?_
  have length := length_questionBytes (texts q labels) pkt.qstn.qtype pkt.qstn.qclass
  rw [length_encodeName name.inside] at length
  have all : (Out.emit ⟨rbuf, dnsHdrSize⟩ (questionBytes (texts q labels) pkt.qstn.qtype
      pkt.qstn.qclass)).used + (recordBytes answers).length ≤ cap := by
    show dnsHdrSize + _ + _ ≤ cap
    omega
  have fits := Nat.le_trans (Nat.le_add_right _ _) all
  simp only [if_pos fits]
  rw [writeAll_eq writes all 0]
  refine Returns.pure.bind ?_
  have written := @finishResp_eq pkt cap rbuf (pkt.responseTo (texts q labels) 0 true answers [])
    _ single rfl rfl (Nat.zero_lt_succ 15) rfl rfl rfl room
  simp only [DnsPkt.responseTo, Dns.responseTo, append_nil] at written ⊢
  rw [emit_emit, Nat.zero_add]
  exact ⟨0, fun fuel _ => congrArg Except.ok written⟩

end Responses

end Dns

end Splintermail
