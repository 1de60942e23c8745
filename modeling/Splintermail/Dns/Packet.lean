/-
This file models how the DNS server reads a query, `parse.c`.

A query is read twice. A first pass checks the names and the records, and looks at the
length of the packet before every byte. Then names and records are read again, by iterators
that do not look at it. A byte that is read from outside of the packet is a fault, and so
is a loop that does not end, for which there is fuel. Of what the server logs about a query
only the reading is modelled.
-/

import Splintermail.Dstr.Bytes
import Splintermail.Lib.Fuel

namespace Splintermail

namespace Dns

/-- What can go wrong: a loop without end, a read outside of the packet, a store outside of an array
and a `LOG_FATAL`. -/
inductive ReadFault where
  | hang
  | overread (off : Nat)
  | overrun
  | fatal
  deriving DecidableEq

/-- A packet that was received. An object in memory is smaller than `PTRDIFF_MAX`. -/
structure Packet where
  bytes : Bytes
  fits : bytes.length < 2 ^ 63

namespace Packet

def len (q : Packet) : Nat := q.bytes.length

def read (q : Packet) (off : Nat) : Except ReadFault UInt8 :=
  match q.bytes[off]? with
  | some byte => .ok byte
  | none => .error (.overread off)

def read16 (q : Packet) (off : Nat) : Except ReadFault Nat := do
  let high ← q.read off
  let low ← q.read (off + 1)
  return high.toNat <<< 8 ||| low.toNat

def read32 (q : Packet) (off : Nat) : Except ReadFault Nat := do
  let high ← q.read16 off
  let low ← q.read16 (off + 2)
  return high <<< 16 ||| low

def readBytes (q : Packet) (off : Nat) : Nat → Except ReadFault Bytes
  | 0 => .ok []
  | len + 1 => do
    let byte ← q.read off
    let rest ← q.readBytes (off + 1) len
    return byte :: rest

end Packet

/-! ### Codes of a bad parse -/

def bpMinval : Nat := 2 ^ 64 - 13
def bpEndsOptDataOverrun : Nat := 2 ^ 64 - 14
def bpEndsOptHdrOverrun : Nat := 2 ^ 64 - 13
def bpEndsNonemptyName : Nat := 2 ^ 64 - 12
def bpDoubleEdns : Nat := 2 ^ 64 - 11
def bpRrDataOverrun : Nat := 2 ^ 64 - 10
def bpRrHdrOverrun : Nat := 2 ^ 64 - 9
def bpQstnOverrun : Nat := 2 ^ 64 - 8
def bpLongName : Nat := 2 ^ 64 - 7
def bpLabelOverrun : Nat := 2 ^ 64 - 6
def bpLongLabel : Nat := 2 ^ 64 - 5
def bpDoublePointer : Nat := 2 ^ 64 - 4
def bpPtrLenByte : Nat := 2 ^ 64 - 3
def bpLabelLenByte : Nat := 2 ^ 64 - 2
def bpHdrOverrun : Nat := 2 ^ 64 - 1

/-- `is_bad_parse` -/
def isBadParse (n : Nat) : Bool := bpMinval ≤ n

/-! ### The header -/

/-- `dns_hdr_t` -/
structure DnsHdr where
  id : Nat := 0
  qr : Bool := false
  opcode : Nat := 0
  aa : Bool := false
  tc : Bool := false
  rd : Bool := false
  ra : Bool := false
  z : Nat := 0
  rcode : Nat := 0
  qdcount : Nat := 0
  ancount : Nat := 0
  nscount : Nat := 0
  arcount : Nat := 0
  deriving DecidableEq

def dnsHdrSize : Nat := 12

/-- `parse_hdr` -/
def parseHdr (q : Packet) (used : Nat) : Except ReadFault (Nat × DnsHdr) :=
  if isBadParse used then .ok (used, {})
  else if q.len < used + 12 then .ok (bpHdrOverrun, {})
  else do
    let id ← q.read16 used
    let flags ← q.read (used + 2)
    let codes ← q.read (used + 3)
    let qdcount ← q.read16 (used + 4)
    let ancount ← q.read16 (used + 6)
    let nscount ← q.read16 (used + 8)
    let arcount ← q.read16 (used + 10)
    return (used + 12, {
      id
      qr := 0x80 &&& flags ≠ 0
      opcode := ((0x78 &&& flags) >>> 3).toNat
      aa := 0x04 &&& flags ≠ 0
      tc := 0x02 &&& flags ≠ 0
      rd := 0x01 &&& flags ≠ 0
      ra := 0x80 &&& codes ≠ 0
      z := ((0x70 &&& codes) >>> 4).toNat
      rcode := (0x0f &&& codes).toNat
      qdcount, ancount, nscount, arcount })

/-! ### Names -/

/-- The length byte is the first one of a pointer. -/
def IsPointer (l : UInt8) : Prop := l &&& 0xC0 = 0xC0

instance (l : UInt8) : Decidable (IsPointer l) := inferInstanceAs (Decidable (_ = _))

/-- Where a pointer leads. -/
def pointee (l l2 : UInt8) : Nat := (l &&& 0x3F).toNat <<< 8 ||| l2.toNat

/-- The variables of the loop of `parse_name`. -/
structure ParseName where
  used : Nat
  afterPtr : Bool := false
  wasPtr : Bool := false
  preptrUsed : Nat := 0
  namelen : Nat := 0

/-- The loop of `parse_name`. -/
def parseNameFrom (q : Packet) : Nat → ParseName → Except ReadFault Nat
  | 0, _ => .error .hang
  | fuel + 1, at' =>
    if q.len < at'.used + 1 then .ok bpLabelLenByte
    else do
      let l ← q.read at'.used
      let used := at'.used + 1
      if IsPointer l then
        if at'.wasPtr then return bpDoublePointer
        if q.len < used + 1 then return bpPtrLenByte
        let l2 ← q.read used
        let used := used + 1
        parseNameFrom q fuel { at' with
          wasPtr := true
          afterPtr := true
          preptrUsed := if at'.afterPtr then at'.preptrUsed else used
          used := pointee l l2 }
      else
        if 63 < l.toNat then return bpLongLabel
        if q.len < used + l.toNat then return bpLabelOverrun
        let used := used + l.toNat
        -- the limit includes the length bytes
        let namelen := at'.namelen + l.toNat + 1
        if 255 < namelen then return bpLongName
        if l = 0 then return if at'.afterPtr then at'.preptrUsed else used
        parseNameFrom q fuel { at' with wasPtr := false, used, namelen }

/-- `parse_name` -/
def parseName (q : Packet) (fuel used : Nat) : Except ReadFault Nat :=
  if isBadParse used then .ok used else parseNameFrom q fuel { used }

/-- `skip_name` -/
def skipName (q : Packet) : Nat → Nat → Except ReadFault Nat
  | 0, _ => .error .hang
  | fuel + 1, used => do
    let l ← q.read used
    if IsPointer l then return used + 2
    if l = 0 then return used + 1
    skipName q fuel (used + 1 + l.toNat)

/-- An `lstr_t` that points into the packet. -/
structure Lstr where
  off : Nat := 0
  len : Nat := 0
  deriving DecidableEq

/-- `labels_t` -/
structure Labels where
  pos : Nat
  used : Nat := 0
  afterPtr : Bool := false

/-- `labels_next` -/
def labelsNext (q : Packet) : Nat → Labels → Except ReadFault (Option Lstr × Labels)
  | 0, _ => .error .hang
  | fuel + 1, it => do
    let l ← q.read it.pos
    if l = 0 then
      return (none, { it with
        pos := it.pos + 1, used := if it.afterPtr then it.used else it.pos + 1 })
    if IsPointer l then
      let l2 ← q.read (it.pos + 1)
      labelsNext q fuel { it with
        used := if it.afterPtr then it.used else it.pos + 2
        afterPtr := true
        pos := pointee l l2 }
    else
      return (some ⟨it.pos + 1, l.toNat⟩, { it with pos := it.pos + 1 + l.toNat })

/-- A loop over the labels from an iterator on. -/
def forLabels {State : Type} (q : Packet) (body : State → Lstr → Except ReadFault State) :
    Nat → Labels → State → Except ReadFault (State × Labels)
  | 0, _, _ => .error .hang
  | fuel + 1, it, state => do
    match ← labelsNext q fuel it with
    | (none, it) => return (state, it)
    | (some l, it) =>
      let state ← body state l
      forLabels q body fuel it state

/-- A store to an array. -/
def store (lstrs : List Lstr) (index : Int) (l : Lstr) : Except ReadFault (List Lstr) :=
  if 0 ≤ index ∧ index < lstrs.length then .ok (lstrs.set index.toNat l) else .error .overrun

/-- The second pass of `labels_read_reverse`, with the number of labels it has seen. -/
def keepLabel (cap skip bump : Nat) : Nat × List Lstr → Lstr → Except ReadFault (Nat × List Lstr)
  | (n, lstrs), l =>
    if n < skip then .ok (n + 1, lstrs)
    else do
      let lstrs ← store lstrs (((cap + skip : Nat) : Int) - 1 - n - bump) l
      return (n + 1, lstrs)

/-- `labels_read_reverse`, with an array of the capacity. -/
def labelsReadReverse (q : Packet) (fuel start : Nat) (lstrs : List Lstr) :
    Except ReadFault (Nat × List Lstr) := do
  let cap := lstrs.length
  let (total, _) ← forLabels q (fun total _ => .ok (total + 1)) fuel { pos := start } 0
  -- we might skip saving the first few
  let skip := if cap < total then total - cap else 0
  -- and we might bump some labels forward if we can't fill the buffer
  let bump := if total < cap then cap - total else 0
  let ((_, lstrs), _) ← forLabels q (keepLabel cap skip bump) fuel { pos := start } (0, lstrs)
  return (total, lstrs)

/-! ### The question -/

/-- `dns_qstn_t` -/
structure DnsQstn where
  off : Nat := 0
  len : Nat := 0
  qdcount : Nat := 0
  qtype : Nat := 0
  qclass : Nat := 0

/-- The names of the questions. -/
def parseNames (q : Packet) (fuel : Nat) : Nat → Nat → Except ReadFault Nat
  | 0, used => .ok used
  | count + 1, used => do
    let used ← parseName q fuel used
    if isBadParse used then return used
    parseNames q fuel count used

/-- `parse_qstn` -/
def parseQstn (q : Packet) (fuel qdcount used : Nat) : Except ReadFault (Nat × DnsQstn) :=
  if isBadParse used then .ok (used, {})
  else do
    let off := used
    let used ← parseNames q fuel qdcount used
    if isBadParse used then return (used, { off })
    if q.len < used + 4 then return (bpQstnOverrun, { off })
    let qtype ← q.read16 used
    let qclass ← q.read16 (used + 2)
    let used := used + 4
    return (used, { off, len := used - off, qdcount, qtype, qclass })

/-! ### Records -/

/-- `dns_rr_t`, a section. -/
structure DnsRr where
  off : Nat := 0
  len : Nat := 0
  count : Nat := 0

/-- `rr_t` -/
structure Rr where
  nameoff : Nat := 0
  rrtype : Nat := 0
  rrclass : Nat := 0
  ttl : Nat := 0
  rdlen : Nat := 0
  rdoff : Nat := 0
  deriving DecidableEq

def rrHdrSize : Nat := 10

/-- The header of a record after its name. -/
def readRrHdr (q : Packet) (nameoff used : Nat) : Except ReadFault Rr := do
  let rrtype ← q.read16 used
  let rrclass ← q.read16 (used + 2)
  let ttl ← q.read32 (used + 4)
  let rdlen ← q.read16 (used + 8)
  return { nameoff, rrtype, rrclass, ttl, rdlen, rdoff := used + 10 }

/-- The loop of `parse_rr`. -/
def parseRrs (q : Packet) (fuel : Nat) : Nat → Nat → Except ReadFault Nat
  | 0, used => .ok used
  | count + 1, nameoff => do
    let used ← parseName q fuel nameoff
    if isBadParse used then return used
    if q.len < used + 10 then return bpRrHdrOverrun
    let rr ← readRrHdr q nameoff used
    let used := used + 10
    if q.len < used + rr.rdlen then return bpRrDataOverrun
    parseRrs q fuel count (used + rr.rdlen)

/-- `parse_rr` -/
def parseRr (q : Packet) (fuel count used : Nat) : Except ReadFault (Nat × DnsRr) :=
  if isBadParse used then .ok (used, {})
  else do
    let off := used
    let used ← parseRrs q fuel count used
    if isBadParse used then return (used, { off, count })
    return (used, { off, len := used - off, count })

/-- `rrs_t` -/
structure Rrs where
  pos : Nat
  count : Nat
  seen : Nat := 0

/-- `dns_rr_iter`, before its first `rrs_next`. -/
def dnsRrIter (dnsRr : DnsRr) : Rrs := { pos := dnsRr.off, count := dnsRr.count }

/-- `rrs_next` -/
def rrsNext (q : Packet) (fuel : Nat) (it : Rrs) : Except ReadFault (Option Rr × Rrs) :=
  if it.seen = it.count then .ok (none, it)
  else do
    let used ← skipName q fuel it.pos
    let rr ← readRrHdr q it.pos used
    let used := used + 10
    return (some rr, { it with pos := used, seen := it.seen + 1 })

/-- A loop over the records from an iterator on. -/
def forRrs {State : Type} (q : Packet) (body : State → Rr → Except ReadFault State) :
    Nat → Rrs → State → Except ReadFault State
  | 0, _, _ => .error .hang
  | fuel + 1, it, state => do
    match ← rrsNext q fuel it with
    | (none, _) => return state
    | (some rr, it) =>
      let state ← body state rr
      forRrs q body fuel it state

/-! ### EDNS -/

/-- The type of the record of EDNS. -/
def edns : Nat := 41

/-- The loop of `find_edns`. -/
def findEdnsFrom (q : Packet) : Nat → Rrs → Option Rr → Except ReadFault (Nat × Option Rr)
  | 0, _, _ => .error .hang
  | fuel + 1, it, found => do
    match ← rrsNext q fuel it with
    | (none, _) => return (if found.isSome then 1 else 0, found)
    | (some rr, it) =>
      if rr.rrtype ≠ edns then findEdnsFrom q fuel it found
      else if found.isSome then return (bpDoubleEdns, found)
      else findEdnsFrom q fuel it (some rr)

/-- `find_edns` -/
def findEdns (q : Packet) (fuel : Nat) (addl : DnsRr) : Except ReadFault (Nat × Option Rr) :=
  findEdnsFrom q fuel (dnsRrIter addl) none

/-- `edns_t` -/
structure Edns where
  found : Bool := false
  extrcode : Nat := 0
  version : Nat := 0
  dnssecOk : Bool := false
  z : Nat := 0
  udpSize : Nat := 0
  optoff : Nat := 0
  optcount : Nat := 0

/-- The loop of `parse_edns`, with the end of the data of the record. -/
def parseOpts (q : Packet) (len : Nat) : Nat → Nat → Nat → Except ReadFault (Nat × Nat)
  | 0, _, _ => .error .hang
  | fuel + 1, used, optcount =>
    if len ≤ used then .ok (0, optcount)
    else if len < used + 4 then .ok (bpEndsOptHdrOverrun, optcount)
    else do
      let optlen ← q.read16 (used + 2)
      let used := used + 4
      if len < used + optlen then return (bpEndsOptDataOverrun, optcount)
      parseOpts q len fuel (used + optlen) (optcount + 1)

/-- The fields of `edns_t` that are read from its record. -/
def ednsOfRr (rr : Rr) (optcount : Nat) : Edns where
  found := true
  udpSize := rr.rrclass
  extrcode := (rr.ttl >>> 24) &&& 0xff
  version := (rr.ttl >>> 16) &&& 0xff
  dnssecOk := rr.ttl &&& 0x8000 ≠ 0
  z := rr.ttl &&& 0x7fff
  optoff := rr.rdoff
  optcount := optcount

/-- `parse_edns` -/
def parseEdns (q : Packet) (fuel : Nat) (rr : Rr) : Except ReadFault (Nat × Edns) := do
  let name ← q.read rr.nameoff
  if name ≠ 0 then return (bpEndsNonemptyName, { found := true })
  let (zret, optcount) ← parseOpts q (rr.rdoff + rr.rdlen) fuel rr.rdoff 0
  return (zret, ednsOfRr rr optcount)

/-- `dns_pkt_t` -/
structure DnsPkt where
  hdr : DnsHdr
  qstn : DnsQstn
  ans : DnsRr
  auth : DnsRr
  addl : DnsRr
  edns : Edns := {}

/-- The first pass of `parse_pkt`. -/
def parseSections (q : Packet) (fuel : Nat) : Except ReadFault (Nat × DnsPkt) := do
  let (used, hdr) ← parseHdr q 0
  let (used, qstn) ← parseQstn q fuel hdr.qdcount used
  let (used, ans) ← parseRr q fuel hdr.ancount used
  let (used, auth) ← parseRr q fuel hdr.nscount used
  let (used, addl) ← parseRr q fuel hdr.arcount used
  return (used, { hdr, qstn, ans, auth, addl })

/-- `parse_pkt` -/
def parsePkt (q : Packet) (fuel : Nat) : Except ReadFault (Nat × DnsPkt) := do
  let (used, pkt) ← parseSections q fuel
  if isBadParse used then return (used, pkt)
  let (zret, rr) ← findEdns q fuel pkt.addl
  if isBadParse zret then return (zret, pkt)
  match rr with
  | none => return (0, pkt)
  | some rr =>
    let (zret, edns) ← parseEdns q fuel rr
    if isBadParse zret then return (zret, { pkt with edns })
    return (0, { pkt with edns })

/-! ### What the log reads -/

/-- The labels of a name, as they are printed. -/
def fmtLabels (q : Packet) (fuel start : Nat) : Except ReadFault Labels := do
  let (_, it) ← forLabels q (fun _ l => do
      let _ ← q.readBytes l.off l.len)
    fuel { pos := start } ()
  return it

/-- `fmt_qstn` -/
def fmtQstn (q : Packet) (fuel : Nat) : Nat → Nat → Except ReadFault Unit
  | 0, _ => .ok ()
  | count + 1, used => do
    let labels ← fmtLabels q fuel used
    fmtQstn q fuel count labels.used

/-- `fmt_rr` -/
def fmtRr (q : Packet) (fuel : Nat) (dnsRr : DnsRr) : Except ReadFault Unit :=
  forRrs q (fun _ rr => do
      let _ ← fmtLabels q fuel rr.nameoff
      let _ ← q.readBytes rr.rdoff rr.rdlen)
    fuel (dnsRrIter dnsRr) ()

/-- `fmt_edns`, with the loop over `opts_next`. -/
def fmtOpts (q : Packet) : Nat → Nat → Except ReadFault Unit
  | 0, _ => .ok ()
  | count + 1, pos => do
    let _optcode ← q.read16 pos
    let optlen ← q.read16 (pos + 2)
    let _ ← q.readBytes (pos + 4) optlen
    fmtOpts q count (pos + 4 + optlen)

/-- `fmt_pkt` -/
def fmtPkt (q : Packet) (fuel : Nat) (pkt : DnsPkt) : Except ReadFault Unit := do
  fmtQstn q fuel pkt.qstn.qdcount pkt.qstn.off
  fmtRr q fuel pkt.ans
  fmtRr q fuel pkt.auth
  fmtRr q fuel pkt.addl
  if pkt.edns.found then fmtOpts q pkt.edns.optcount pkt.edns.optoff

end Dns

end Splintermail
