/-
This file models how the DNS server answers a query, `dns.c`.

A query is sorted by its labels, from the last one on. The answers to the queries of the
domain are in the code, but for the challenge of a user, which is looked up.
-/

import Splintermail.Dns.Write

namespace Splintermail

namespace Dns

/-! ### Responses -/

/-- The end of `negative_resp` and of `positive_resp`: EDNS and the header. -/
def finishResp (pkt : DnsPkt) (rcode : Nat) (aa : Bool) (ancount nscount : Nat) (cap len : Nat)
    (out : Out) : Nat × (Nat → UInt8) :=
  let (out, len, arcount) :=
    if pkt.edns.found then
      let out := writeEdns cap out
      if out.used ≤ cap then (out, out.used, 1) else (out, len, 0)
    else (out, len, 0)
  let tc : Bool := cap < out.used
  let out := writeResponseHdr pkt.hdr rcode aa tc ancount nscount arcount cap { out with used := 0 }
  (len, out.mem)

/-- `negative_resp`: the length of the response, and the buffer. -/
def negativeResp (q : Packet) (fuel : Nat) (pkt : DnsPkt) (rcode : Nat) (aa soa : Bool)
    (rbuf : Nat → UInt8) (cap : Nat) : Except ReadFault (Nat × (Nat → UInt8)) := do
  -- skip header for now
  let len := dnsHdrSize
  -- edns outranks other data, so reserve space
  let ednsResv := if pkt.edns.found then bareEdnsSize else 0
  let out ← writeQstn q fuel pkt.qstn (cap - ednsResv) ⟨rbuf, dnsHdrSize⟩
  let len := if out.used ≤ cap then out.used else len
  if soa then
    let out ← writeSoa [] 0 (cap - ednsResv) out
    if out.used ≤ cap then return finishResp pkt rcode aa 0 1 cap out.used out
    else return finishResp pkt rcode aa 0 0 cap len out
  else return finishResp pkt rcode aa 0 0 cap len out

/-- The loop of `positive_resp` over its writers. -/
def writeAll (arg : Bytes) (cap : Nat) : List Writer → Out → Nat → Nat →
    Except ReadFault (Out × Nat × Nat)
  | [], out, len, ancount => .ok (out, len, ancount)
  | writer :: writers, out, len, ancount => do
    let out ← writer arg dnsHdrSize cap out
    if out.used ≤ cap then writeAll arg cap writers out out.used (ancount + 1)
    else writeAll arg cap writers out len ancount

/-- `positive_resp` -/
def positiveResp (q : Packet) (fuel : Nat) (writers : List Writer) (arg : Bytes) (pkt : DnsPkt)
    (rbuf : Nat → UInt8) (cap : Nat) : Except ReadFault (Nat × (Nat → UInt8)) := do
  -- skip header for now
  let len := dnsHdrSize
  -- edns outranks other data, so reserve space
  let ednsResv := if pkt.edns.found then bareEdnsSize else 0
  let out ← writeQstn q fuel pkt.qstn (cap - ednsResv) ⟨rbuf, dnsHdrSize⟩
  let len := if out.used ≤ cap then out.used else len
  let (out, len, ancount) ← writeAll arg cap writers out len 0
  -- we only serve records for which we are authoritative
  return finishResp pkt 0 true ancount 0 cap len out

/-- What `kvp->iget` gives: `UNSURE`, `NULL` or the secret. -/
inductive Lookup where
  | unsure
  | absent
  | found (secret : Bytes)
  deriving DecidableEq

/-- The functions that a query can be sorted to. -/
inductive Respond where
  | norespond
  | notimpl
  | nameError
  | root
  | user
  | acme
  deriving DecidableEq

def rcodeOk : Nat := 0
def rcodeSrverr : Nat := 2
def rcodeNameerr : Nat := 3
def rcodeNotimpl : Nat := 4

section Responses

variable (q : Packet) (fuel : Nat) (pkt : DnsPkt) (rbuf : Nat → UInt8) (cap : Nat)

/-- `norecord_resp` -/
def norecordResp : Except ReadFault (Nat × (Nat → UInt8)) :=
  negativeResp q fuel pkt rcodeOk true true rbuf cap

/-- `respond_notimpl` -/
def respondNotimpl : Except ReadFault (Nat × (Nat → UInt8)) :=
  negativeResp q fuel pkt rcodeNotimpl false false rbuf cap

/-- `respond_name_error` -/
def respondNameError : Except ReadFault (Nat × (Nat → UInt8)) :=
  negativeResp q fuel pkt rcodeNameerr true true rbuf cap

/-- `respond_root`, for user.splintermail.com -/
def respondRoot : Except ReadFault (Nat × (Nat → UInt8)) :=
  if pkt.qstn.qtype = typeSoa then positiveResp q fuel [writeSoa] [] pkt rbuf cap
  else if pkt.qstn.qtype = typeNs then
    positiveResp q fuel [writeNs1, writeNs2] [] pkt rbuf cap
  else if pkt.qstn.qtype = typeCaa then positiveResp q fuel [writeCaa] [] pkt rbuf cap
  else norecordResp q fuel pkt rbuf cap

/-- `respond_user`, for *.user.splintermail.com -/
def respondUser : Except ReadFault (Nat × (Nat → UInt8)) :=
  if pkt.qstn.qtype = typeA then positiveResp q fuel [writeA] [] pkt rbuf cap
  else if pkt.qstn.qtype = typeAaaa then positiveResp q fuel [writeAaaa] [] pkt rbuf cap
  else if pkt.qstn.qtype = typeCaa then positiveResp q fuel [writeCaa] [] pkt rbuf cap
  else norecordResp q fuel pkt rbuf cap

/-- `respond_acme`, for _acme-challenge.*.user.splintermail.com -/
def respondAcme (secret : Lookup) : Except ReadFault (Nat × (Nat → UInt8)) :=
  -- only respond to TXT queries
  if pkt.qstn.qtype ≠ typeTxt then norecordResp q fuel pkt rbuf cap
  else match secret with
    -- confident "no"
    | .absent => norecordResp q fuel pkt rbuf cap
    -- no confident response
    | .unsure => negativeResp q fuel pkt rcodeSrverr true false rbuf cap
    | .found secret => positiveResp q fuel [writeSecret] secret pkt rbuf cap

/-- The call of a function that a query was sorted to. -/
def respond (secret : Lookup) : Respond → Except ReadFault (Nat × (Nat → UInt8))
  | .norespond => .ok (0, rbuf)
  | .notimpl => respondNotimpl q fuel pkt rbuf cap
  | .nameError => respondNameError q fuel pkt rbuf cap
  | .root => respondRoot q fuel pkt rbuf cap
  | .user => respondUser q fuel pkt rbuf cap
  | .acme => respondAcme q fuel pkt rbuf cap secret

end Responses

/-! ### Sorting -/

/-- An ASCII letter in lower case. -/
def lower (char : UInt8) : UInt8 := if 65 ≤ char ∧ char ≤ 90 then char + 32 else char

/-- `lstr_ieq`, with a literal. -/
def lstrIeq (q : Packet) (a : Lstr) (b : Bytes) : Except ReadFault Bool :=
  if a.len ≠ b.length then .ok false
  else do
    let bytes ← q.readBytes a.off a.len
    return bytes.map lower = b.map lower

def labelAcmeChallenge : Bytes :=
  chars ['_', 'a', 'c', 'm', 'e', '-', 'c', 'h', 'a', 'l', 'l', 'e', 'n', 'g', 'e']

/-- `sort_pkt` -/
def sortPkt (q : Packet) (pkt : DnsPkt) (rname : List Lstr) (n : Nat) :
    Except ReadFault Respond := do
  -- only service queries
  if pkt.hdr.qr then return .norespond
  -- only service standard queries
  if pkt.hdr.opcode ≠ 0 then return .norespond
  -- only service one question at a time, like tinydns
  if pkt.hdr.qdcount ≠ 1 then return .norespond
  -- only respond to IN-class queries
  if pkt.qstn.qclass ≠ 1 then return .norespond
  -- 0 is not a valid qtype
  if pkt.qstn.qtype = 0 then return .norespond
  -- no response for domains we're not responsible for
  if n < 3 then return .norespond
  if !(← lstrIeq q (rname.getD 0 {}) labelCom) then return .norespond
  if !(← lstrIeq q (rname.getD 1 {}) labelSplintermail) then return .norespond
  if !(← lstrIeq q (rname.getD 2 {}) labelUser) then return .norespond
  -- we only implement the basic qtypes from rfc1035 + AAAA + CAA
  let qtype := pkt.qstn.qtype
  if typeTxt < qtype ∧ qtype ≠ typeAaaa ∧ qtype ≠ typeCaa then return .notimpl
  if n = 3 then return .root
  if n = 4 then return .user
  if n = 5 then
    if ← lstrIeq q (rname.getD 4 {}) labelAcmeChallenge then return .acme
  return .nameError

/-! ### Packets -/

/-- What came of a query: the length of the response, the buffer, and the user that was looked
up. -/
structure Handled where
  len : Nat
  rbuf : Nat → UInt8
  asked : Option Bytes := none

/-- The lookup of the secret in `handle_packet`. -/
def lookupSecret (q : Packet) (iget : Bytes → Lookup) (rname : List Lstr) (n : Nat)
    (chosen : Respond) : Except ReadFault (Lookup × Option Bytes) :=
  if chosen ≠ .acme then .ok (.absent, none)
  else if n < 4 then .error .fatal
  else do
    -- username would be at index 3: com.splintermail.user.*
    let user := rname.getD 3 {}
    let bytes ← q.readBytes user.off user.len
    return (iget bytes, some bytes)

/-- `handle_packet`. With `log` the query is printed. -/
def handlePacket (q : Packet) (log : Bool) (iget : Bytes → Lookup) (rbuf : Nat → UInt8)
    (rcap : Nat) (fuel : Nat) : Except ReadFault Handled := do
  -- require a minimum rcap size to function
  if rcap < 512 then return { len := 0, rbuf }
  let (pret, pkt) ← parsePkt q fuel
  if isBadParse pret then return { len := 0, rbuf }
  if log then fmtPkt q fuel pkt
  /- save one label more than we'll ever read, so that sort_pkt can be aware of junk queries which
  are only junk because of the extra labels -/
  let cap := 6
  let (n, rname) ← labelsReadReverse q fuel pkt.qstn.off (List.replicate cap {})
  -- too many labels; but we don't actually care
  let n := if cap < n then cap else n
  let chosen ← sortPkt q pkt rname n
  let (secret, asked) ← lookupSecret q iget rname n chosen
  -- pick a good rcap
  let rcap := if pkt.edns.found then max (min rcap pkt.edns.udpSize) 512 else min rcap 512
  let (len, rbuf) ← respond q fuel pkt rbuf rcap secret chosen
  return { len, rbuf, asked }

end Dns

end Splintermail
