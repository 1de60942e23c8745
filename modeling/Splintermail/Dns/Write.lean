/-
This file models how the DNS server writes a response, `write.c`, with the constants of
`config.h`.

A writer that finds too little space writes nothing, but it advances the offset as if it
had written. So after the last one the offset tells whether anything was skipped. What a
writer puts into the buffer is one block of bytes at the offset.
-/

import Splintermail.Dns.Packet
import Splintermail.Lib.Memory

namespace Splintermail

namespace Dns

/-- The buffer of a response, with the offset to write at. -/
structure Out where
  mem : Nat → UInt8
  used : Nat

/-! ### Numbers and names -/

/-- `put_uint8` -/
def putUint8 (n : Nat) (out : Out) : Out where
  mem := copyTo out.mem out.used [UInt8.ofNat n]
  used := out.used + 1

/-- `put_uint16` -/
def putUint16 (n : Nat) (out : Out) : Out where
  mem := copyTo out.mem out.used [UInt8.ofNat (n >>> 8), UInt8.ofNat n]
  used := out.used + 2

/-- `put_uint32` -/
def putUint32 (n : Nat) (out : Out) : Out where
  mem := copyTo out.mem out.used
    [UInt8.ofNat (n >>> 24), UInt8.ofNat (n >>> 16), UInt8.ofNat (n >>> 8), UInt8.ofNat n]
  used := out.used + 4

/-- `put_lstr` -/
def putLstr (l : Bytes) (out : Out) : Out where
  mem := copyTo out.mem out.used l
  used := out.used + l.length

/-- `put_name` -/
def putName : List Bytes → Out → Out
  | [], out => putUint8 0 out
  | l :: labels, out => putName labels (putLstr l (putUint8 l.length out))

/-- `put_name_ptr` -/
def putNamePtr (offset : Nat) (out : Out) : Out := putUint16 (0xC000 ||| min offset 0x3FFF) out

/-- What a writer does if there is too little space. -/
def skipped (needed : Nat) (out : Out) : Out := { out with used := out.used + needed }

/-! ### The header and the question -/

/-- `write_hdr` -/
def writeHdr (hdr : DnsHdr) (cap : Nat) (out : Out) : Out :=
  if cap < out.used + dnsHdrSize then skipped dnsHdrSize out
  else
    let out := putUint16 hdr.id out
    let out := putUint8 (hdr.qr.toNat <<< 7 ||| hdr.opcode <<< 3 ||| hdr.aa.toNat <<< 2 |||
      hdr.tc.toNat <<< 1 ||| hdr.rd.toNat) out
    let out := putUint8 (hdr.ra.toNat <<< 7 ||| 0x00 ||| (hdr.rcode &&& 0x0f)) out
    let out := putUint16 hdr.qdcount out
    let out := putUint16 hdr.ancount out
    let out := putUint16 hdr.nscount out
    putUint16 hdr.arcount out

/-- `write_response_hdr`, with the header of the query. -/
def writeResponseHdr (hdr : DnsHdr) (rcode : Nat) (aa tc : Bool) (ancount nscount arcount : Nat)
    (cap : Nat) (out : Out) : Out :=
  writeHdr {
    id := hdr.id
    qr := true
    opcode := 0
    aa, tc
    rd := hdr.rd
    ra := false
    rcode
    qdcount := hdr.qdcount
    ancount, nscount, arcount } cap out

/-- `write_qstn` -/
def writeQstn (q : Packet) (fuel : Nat) (qstn : DnsQstn) (cap : Nat) (out : Out) :
    Except ReadFault Out :=
  if qstn.qdcount ≠ 1 then .ok out
  else do
    -- qtype + qclass + null-termination of name
    let (needed, _) ← forLabels q (fun needed l => .ok (needed + (l.len + 1))) fuel
      { pos := qstn.off } 5
    if cap < out.used + needed then return skipped needed out
    let (out, _) ← forLabels q (fun out l => do
        let bytes ← q.readBytes l.off l.len
        return putLstr bytes (putUint8 l.len out))
      fuel { pos := qstn.off } out
    return putUint16 qstn.qclass (putUint16 qstn.qtype (putUint8 0 out))

/-! ### Records -/

/-- `put_rr_hdr`, of the IN class. -/
def putRrHdr (rrtype ttl rdlen : Nat) (out : Out) : Out :=
  putUint16 rdlen (putUint32 ttl (putUint16 1 (putUint16 rrtype out)))

def typeA : Nat := 1
def typeNs : Nat := 2
def typeSoa : Nat := 6
def typeTxt : Nat := 16
def typeAaaa : Nat := 28
def typeCaa : Nat := 257

def bareEdnsSize : Nat := 11
def udpMaxSize : Nat := 1280

/-- `write_edns` -/
def writeEdns (cap : Nat) (out : Out) : Out :=
  if cap < out.used + bareEdnsSize then skipped bareEdnsSize out
  else putUint16 0 (putUint32 0 (putUint16 udpMaxSize (putUint16 edns (putUint8 0 out))))

/-- A string of `config.h`. -/
def chars (text : List Char) : Bytes := text.map fun char => UInt8.ofNat char.toNat

def labelUser : Bytes := chars ['u', 's', 'e', 'r']
def labelSplintermail : Bytes :=
  chars ['s', 'p', 'l', 'i', 'n', 't', 'e', 'r', 'm', 'a', 'i', 'l']
def labelCom : Bytes := chars ['c', 'o', 'm']

def zoneName : List Bytes := [labelUser, labelSplintermail, labelCom]
def ns1Name : List Bytes := [chars ['n', 's', '1'], labelSplintermail, labelCom]
def ns2Name : List Bytes := [chars ['n', 's', '2'], labelSplintermail, labelCom]
def mname : List Bytes := ns1Name
def rname : List Bytes :=
  [chars ['h', 'o', 's', 't', 'm', 'a', 's', 't', 'e', 'r'], labelSplintermail, labelCom]

def nsTtl : Nat := 86400
def aTtl : Nat := 86400
def txtTtl : Nat := 60
def aaaaTtl : Nat := 86400
def soaTtl : Nat := 86400
def caaTtl : Nat := 60
def serial : Nat := 20231108
def caaFlags : Nat := 128
def caaTag : Bytes := chars ['i', 's', 's', 'u', 'e']
def caaValue : Bytes :=
  chars ['l', 'e', 't', 's', 'e', 'n', 'c', 'r', 'y', 'p', 't', '.', 'o', 'r', 'g']

/-- `writer_f`: what `arg` points to, the offset of a name, the capacity and the buffer. -/
abbrev Writer : Type := Bytes → Nat → Nat → Out → Except ReadFault Out

/-- `write_soa` -/
def writeSoa : Writer := fun _ _ cap out =>
  let rdlen := 71
  let needed := 104
  if cap < out.used + needed then .ok (skipped needed out)
  else
    let out := putRrHdr typeSoa soaTtl rdlen (putName zoneName out)
    let out := putName rname (putName mname out)
    .ok (putUint32 60 (putUint32 86400 (putUint32 60 (putUint32 300 (putUint32 serial out)))))

/-- `write_a` -/
def writeA : Writer := fun _ nameoff cap out =>
  let rdlen := 4
  let needed := 2 + rrHdrSize + rdlen
  if cap < out.used + needed then .ok (skipped needed out)
  else
    let out := putRrHdr typeA aTtl rdlen (putNamePtr nameoff out)
    .ok (putUint8 1 (putUint8 0 (putUint8 0 (putUint8 127 out))))

/-- `_write_ns` -/
def writeNs (name : List Bytes) (cap : Nat) (out : Out) : Except ReadFault Out :=
  let rdlen := 22
  let needed := 55
  if cap < out.used + needed then .ok (skipped needed out)
  else .ok (putName name (putRrHdr typeNs nsTtl rdlen (putName zoneName out)))

/-- `write_ns1` -/
def writeNs1 : Writer := fun _ _ cap out => writeNs ns1Name cap out

/-- `write_ns2` -/
def writeNs2 : Writer := fun _ _ cap out => writeNs ns2Name cap out

/-- `write_secret` -/
def writeSecret : Writer := fun secret nameoff cap out =>
  let rdlen := 1 + secret.length
  let needed := 2 + rrHdrSize + rdlen
  if cap < out.used + needed then .ok (skipped needed out)
  else
    let out := putRrHdr typeTxt txtTtl rdlen (putNamePtr nameoff out)
    if 255 < secret.length then .error .fatal
    else .ok (putLstr secret (putUint8 secret.length out))

/-- `write_aaaa` -/
def writeAaaa : Writer := fun _ nameoff cap out =>
  let rdlen := 16
  let needed := 2 + rrHdrSize + rdlen
  if cap < out.used + needed then .ok (skipped needed out)
  else
    let out := putRrHdr typeAaaa aaaaTtl rdlen (putNamePtr nameoff out)
    .ok (putUint32 1 (putUint32 0 (putUint32 0 (putUint32 0 out))))

/-- `write_caa` -/
def writeCaa : Writer := fun _ nameoff cap out =>
  let rdlen := 2 + caaTag.length + caaValue.length
  let needed := 2 + rrHdrSize + rdlen
  if cap < out.used + needed then .ok (skipped needed out)
  else
    let out := putRrHdr typeCaa caaTtl rdlen (putNamePtr nameoff out)
    .ok (putLstr caaValue (putLstr caaTag (putUint8 caaTag.length (putUint8 caaFlags out))))

end Dns

end Splintermail
