/-
This file proves that the responses of the DNS server are messages, and when they carry EDNS.

The bytes of a response are an encoded message with the id and the question of the query. It
has a record of EDNS if the server has found one in the query. The server looks for it with
its iterator over records, so it can miss it, and it can find one that is not there.
-/

import Splintermail.Dns.Compression

namespace Splintermail

open List

namespace Dns

variable {q : Packet} {pkt : DnsPkt} {labels : List Lstr} {iget : Bytes → Lookup}

/-! ### Numbers -/

theorem read16_lt {off n : Nat} (result : q.read16 off = .ok n) : n < 2 ^ 16 := by
  obtain ⟨high, _, result⟩ := ok_bind result
  obtain ⟨low, _, result⟩ := ok_bind result
  cases result
  refine Nat.or_lt_two_pow ?_ (Nat.lt_trans low.toNat_lt (by decide))
  rw [Nat.shiftLeft_eq]
  have bound := high.toNat_lt
  omega

theorem be16_inj {first second : Nat} (firstLt : first < 2 ^ 16) (secondLt : second < 2 ^ 16)
    (same : be16 first = be16 second) : first = second := by
  obtain ⟨highs, lows⟩ := cons.inj same
  obtain ⟨lows, -⟩ := cons.inj lows
  have high := congrArg UInt8.toNat highs
  have low := congrArg UInt8.toNat lows
  rw [UInt8.toNat_ofNat', UInt8.toNat_ofNat'] at high low
  rw [Nat.shiftRight_eq_div_pow, Nat.shiftRight_eq_div_pow] at high
  omega

theorem Layout.id_lt (layout : Layout q) : layout.hdr.id < 2 ^ 16 := by
  have header := layout.header
  unfold parseHdr at header
  rw [if_neg (by decide)] at header
  by_cases past : q.len < 0 + 12
  · rw [if_pos past] at header
    exact absurd (Prod.mk.inj (Except.ok.inj header)).1 (by decide)
  rw [if_neg past] at header
  obtain ⟨id, read, header⟩ := ok_bind header
  obtain ⟨_, _, header⟩ := ok_bind header
  obtain ⟨_, _, header⟩ := ok_bind header
  obtain ⟨_, _, header⟩ := ok_bind header
  obtain ⟨_, _, header⟩ := ok_bind header
  obtain ⟨_, _, header⟩ := ok_bind header
  obtain ⟨_, _, header⟩ := ok_bind header
  rw [← (Prod.mk.inj (Except.ok.inj header)).2]
  exact read16_lt read

/-! ### Responses -/

/-- The query has a record of EDNS. -/
def Layout.hasEdns (layout : Layout q) : Bool := !(ednsOf layout.addl).isEmpty

/-- A response is a message that answers the query, with a record of EDNS if the query has one. -/
def WellAnswered (q : Packet) (layout : Layout q) (handled : Handled) : Prop :=
  ∃ labels, Name q dnsHdrSize labels ∧ ∃ msg : Message,
    cellsFrom handled.rbuf 0 handled.len = msg.encode ∧ handled.len ≤ 512 ∧ msg.Sound ∧
    msg.id = layout.hdr.id ∧ msg.question = texts q labels ∧ msg.qtype = layout.qtype ∧
    msg.qclass = layout.qclass ∧ msg.tc = false ∧ msg.additionals = additional layout.hasEdns

theorem cellsFrom_withMessage (rbuf : Nat → UInt8) (msg : Message) :
    cellsFrom (withMessage rbuf msg) 0 msg.encode.length = msg.encode := by
  unfold withMessage Message.encode
  rw [length_append]
  exact cellsFrom_copyTo_before msg.header msg.body

theorem additionals_length {first second : Message} (same : first.encode = second.encode)
    (firstLt : first.additionals.length < 2 ^ 16) (secondLt : second.additionals.length < 2 ^ 16) :
    first.additionals.length = second.additionals.length := by
  have headers : first.header = second.header :=
    (append_inj same (first.length_header.trans second.length_header.symm)).1
  exact be16_inj firstLt secondLt (congrArg (drop 10) headers)

theorem short_absent : Lookup.absent.Short := fun _ absent => nomatch absent

theorem reply_sound (accepted : Accepted q pkt) (layout : Layout q)
    (name : Name q dnsHdrSize labels) (short : ∀ user, (iget user).Short)
    (answered : pkt.chosen (texts q labels) ≠ .norespond) :
    (pkt.reply (texts q labels) iget).Sound := by
  obtain ⟨hdr, qstn, _⟩ := accepted.sections layout
  have single := sortNames_single answered
  obtain ⟨stop, valid⟩ := accepted.validName (by rw [single]; exact Nat.one_ne_zero) name
  obtain ⟨rcode, answers, authorities, records⟩ := sound_contentOf
    (secret_short short (texts q labels)) (pkt.chosen (texts q labels))
  have wire := valid.short
  rw [← length_encodeName name.inside] at wire
  have edns : ∀ rr ∈ additional pkt.edns.found,
      rr.rrtype < 2 ^ 16 ∧ rr.rrclass < 2 ^ 16 ∧ rr.ttl < 2 ^ 32 ∧ rr.data.length < 2 ^ 16 := by
    cases pkt.edns.found <;> decide
  have few : (additional pkt.edns.found).length < 2 ^ 16 := by
    cases pkt.edns.found <;> decide
  refine ⟨?_, rcode, length_text valid, wire, ?_, ?_, ⟨?_, ?_, few⟩, fun rr mem => ?_⟩
  · show pkt.hdr.id < 2 ^ 16
    rw [hdr]
    exact layout.id_lt
  · show pkt.qstn.qtype < 2 ^ 16
    rw [qstn]
    exact read16_lt layout.typed
  · show pkt.qstn.qclass < 2 ^ 16
    rw [qstn]
    exact read16_lt layout.classed
  · exact Nat.lt_of_le_of_lt answers (by decide)
  · exact Nat.lt_of_le_of_lt authorities (by decide)
  · rcases mem_append.mp mem with record | additional
    · exact records rr record
    · exact edns rr additional

theorem wellAnswered_handled (accepted : Accepted q pkt) (layout : Layout q)
    (name : Name q dnsHdrSize labels) (short : ∀ user, (iget user).Short)
    (answered : pkt.chosen (texts q labels) ≠ .norespond) (rbuf : Nat → UInt8) :
    WellAnswered q layout (pkt.handled (texts q labels) iget rbuf) ↔
      pkt.edns.found = layout.hasEdns := by
  obtain ⟨hdr, qstn, _⟩ := accepted.sections layout
  have sound := reply_sound accepted layout name short answered
  have bytes := cellsFrom_withMessage rbuf (pkt.reply (texts q labels) iget)
  have fits := reply_fits accepted name short answered
  have length : (pkt.reply (texts q labels) iget).encode.length =
      dnsHdrSize + (pkt.reply (texts q labels) iget).body.length := by
    unfold Message.encode
    rw [length_append, Message.length_header]
  unfold WellAnswered DnsPkt.handled
  rw [if_neg answered]
  constructor
  · rintro ⟨_, _, msg, same, _, other, _, _, _, _, _, additionals⟩
    have lengths := additionals_length (same.symm.trans bytes) other.counts.2.2 sound.counts.2.2
    rw [additionals] at lengths
    replace lengths : (additional layout.hasEdns).length = (additional pkt.edns.found).length :=
      lengths
    cases found : pkt.edns.found <;> cases has : layout.hasEdns <;>
      first | rfl | (rw [found, has] at lengths; exact nomatch lengths)
  · intro found
    have whole : (pkt.reply (texts q labels) iget).encode.length ≤ 512 := by omega
    refine ⟨labels, name, pkt.reply (texts q labels) iget, bytes, whole, sound,
      congrArg (·.id) hdr, rfl, congrArg (·.qtype) qstn, congrArg (·.qclass) qstn, rfl, ?_⟩
    exact congrArg additional found

theorem handled_answered (rbuf : Nat → UInt8) :
    (pkt.handled (texts q labels) iget rbuf).len ≠ 0 ↔
      pkt.chosen (texts q labels) ≠ .norespond := by
  unfold DnsPkt.handled
  by_cases silent : pkt.chosen (texts q labels) = .norespond
  · rw [if_pos silent]
    exact ⟨fun answered => absurd rfl answered, fun answered => absurd silent answered⟩
  · rw [if_neg silent]
    refine ⟨fun _ => silent, fun _ => ?_⟩
    show (pkt.reply (texts q labels) iget).encode.length ≠ 0
    unfold Message.encode
    rw [length_append, Message.length_header]
    exact Nat.ne_of_gt (Nat.lt_of_lt_of_le (by decide) (Nat.le_add_right dnsHdrSize _))

/-- An accepted packet with one question that is answered, by a server with short secrets: the
response is a message with EDNS if the query has it, if and only if the records that start right
after each other's headers show EDNS where the records of the packet do. -/
theorem wellAnswered_iff (returns : Returns (parsePkt q) (0, pkt)) (layout : Layout q)
    (single : pkt.hdr.qdcount = 1) (short : ∀ user, (iget user).Short) {rcap : Nat}
    (big : 512 ≤ rcap) {log : Bool} {rbuf : Nat → UInt8} {handled : Handled}
    (responded : Returns (handlePacket q log iget rbuf rcap) handled) (answered : handled.len ≠ 0) :
    WellAnswered q layout handled ↔ ∃ rrs stop, Headers q layout.authEnd rrs stop ∧
      rrs.length = layout.hdr.arcount ∧ (ednsOf rrs = [] ↔ ednsOf layout.addl = []) := by
  have accepted := accepted_of_returns returns
  obtain ⟨labels, stop, valid⟩ := accepted.named (by rw [single]; exact Nat.one_ne_zero)
  obtain rfl := (handlePacket_unlogged responded).unique
    (handlePacket_eq accepted valid.name big short nofun)
  have chosen := (handled_answered rbuf).mp answered
  rw [wellAnswered_handled accepted layout valid.name short chosen]
  obtain ⟨rrs, last, headers, all, parsed⟩ := accepted.of_layout layout
  have found : pkt.edns.found = true ↔ ednsOf rrs ≠ [] := by
    rcases parsed with ⟨none, rfl⟩ | ⟨rr, count, one, _, rfl⟩
    · exact ⟨fun found => (nomatch found), fun some => absurd none some⟩
    · rw [one]
      exact ⟨fun _ => cons_ne_nil _ _, fun _ => rfl⟩
  have has : layout.hasEdns = true ↔ ednsOf layout.addl ≠ [] := by
    unfold Layout.hasEdns
    rw [Bool.not_eq_true', isEmpty_eq_false_iff]
  constructor
  · intro same
    have both : pkt.edns.found = true ↔ layout.hasEdns = true := by rw [same]
    exact ⟨rrs, last, headers, all, not_iff_not.mp (found.symm.trans (both.trans has))⟩
  · rintro ⟨others, _, others', allOthers, same⟩
    obtain ⟨rfl, -⟩ := headers.unique others' (all.trans allOthers.symm)
    exact Bool.eq_iff_iff.mpr (found.trans ((not_iff_not.mpr same).trans has.symm))

/-! ### Two packets -/

/-- The question on the zone is answered without EDNS, as it was asked. -/
theorem wellAnswered_iff_plain :
    WellAnswered plainQuestion plainLayout
      (plainLayout.pkt.handled zoneName (fun _ => .absent) (fun _ => 0)) := by
  have returns : Returns (parsePkt plainQuestion) (0, plainLayout.pkt) :=
    parsePkt_accepts ⟨plainLayout, [], 39, .nil, rfl, .inl ⟨rfl, rfl⟩⟩
  have name := (@strictName_zone plainQuestion 12 false rfl rfl rfl rfl).name
  have responded := @handlePacket_eq plainQuestion plainLayout.pkt
    [⟨13, 4⟩, ⟨18, 12⟩, ⟨31, 3⟩] (fun _ => .absent) false (fun _ => 0) 512
    ⟨plainLayout, [], 39, .nil, rfl, .inl ⟨rfl, rfl⟩⟩ name (Nat.le_refl 512)
    (fun _ => short_absent) nofun
  have chosen : plainLayout.pkt.chosen (texts plainQuestion [⟨13, 4⟩, ⟨18, 12⟩, ⟨31, 3⟩]) ≠
      .norespond := by decide
  exact (wellAnswered_iff returns plainLayout rfl (fun _ => short_absent)
    (Nat.le_refl 512) responded ((handled_answered _).mpr chosen)).mpr ⟨[], 39, .nil, rfl, Iff.rfl⟩

/-- A question on the zone, with a record that has a byte of data before the record of EDNS. -/
def hiddenEdns : Packet where
  bytes := [0, 7, 0, 0, 0, 1, 0, 0, 0, 0, 0, 2] ++ (encodeName zoneName ++ [0, 2, 0, 1]) ++
    [0, 0, 1, 0, 1, 0, 0, 0, 0, 0, 1, 0, 0, 0, 41, 5, 0, 0, 0, 0, 0, 0, 0]
  fits := by decide

def hiddenEdnsLayout : Layout hiddenEdns where
  hdr := { id := 7, qdcount := 1, arcount := 2 }
  names := [[⟨13, 4⟩, ⟨18, 12⟩, ⟨31, 3⟩]]
  namesEnd := 35
  qtype := 2
  qclass := 1
  ans := []
  ansEnd := 39
  auth := []
  authEnd := 39
  addl := [⟨39, 1, 1, 0, 1, 50⟩, ⟨51, edns, 1280, 0, 0, 62⟩]
  addlEnd := 62
  header := by rfl
  named := .cons ⟨strictName_zone rfl rfl rfl rfl, nameEnd_zone rfl rfl rfl rfl, by decide⟩ .nil
  qdcount := zone_single
  typed := rfl
  classed := rfl
  answers := .nil
  ancount := length_nil
  authorities := .nil
  nscount := length_nil
  additionals := .cons (validName_root rfl) rfl (by decide)
    (.cons (validName_root rfl) rfl (by decide) .nil)
  arcount := rfl

/-- The record of EDNS is not found, and the response has none. -/
theorem not_wellAnswered_hiddenEdns :
    Returns (parsePkt hiddenEdns) (0, hiddenEdnsLayout.pkt) ∧
      ∃ handled, Returns (handlePacket hiddenEdns false (fun _ => .absent) (fun _ => 0) 512) handled ∧
        handled.len ≠ 0 ∧ ¬WellAnswered hiddenEdns hiddenEdnsLayout handled := by
  have accepted : Accepted hiddenEdns hiddenEdnsLayout.pkt :=
    ⟨hiddenEdnsLayout, [⟨39, 1, 1, 0, 1, 50⟩, ⟨50, 0, 10501, 0, 0, 61⟩], 61,
      .cons (.root rfl) rfl (.cons (.root rfl) rfl .nil), rfl, .inl ⟨rfl, rfl⟩⟩
  have name := (@strictName_zone hiddenEdns 12 false rfl rfl rfl rfl).name
  have chosen : hiddenEdnsLayout.pkt.chosen (texts hiddenEdns [⟨13, 4⟩, ⟨18, 12⟩, ⟨31, 3⟩]) ≠
      .norespond := by decide
  refine ⟨parsePkt_accepts accepted, _, handlePacket_eq accepted name (Nat.le_refl 512)
    (fun _ => short_absent) nofun, (handled_answered _).mpr chosen, fun answered => ?_⟩
  have same := (wellAnswered_handled accepted hiddenEdnsLayout name
    (fun _ => short_absent) chosen _).mp answered
  exact absurd same (by decide)

end Dns

end Splintermail
