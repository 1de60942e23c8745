import Splintermail.Citm.Anon
import Splintermail.Citm.FprWatcher
import Splintermail.Citm.Hostile
import Splintermail.Citm.Keys
import Splintermail.Citm.Login
import Splintermail.Citm.ProcessMsg
import Splintermail.Citm.ReadOnly
import Splintermail.Citm.Sc
import Splintermail.Crypto.Authentic
import Splintermail.Crypto.Decrypter
import Splintermail.Crypto.Delivery
import Splintermail.Crypto.Encrypter
import Splintermail.Crypto.Metadata
import Splintermail.Crypto.Progress
import Splintermail.Crypto.Reading
import Splintermail.Crypto.RoundTrip
import Splintermail.Dns.Answer
import Splintermail.Dns.Buffers
import Splintermail.Dns.Compression
import Splintermail.Dns.Enumeration
import Splintermail.Dns.Handling
import Splintermail.Dns.Layout
import Splintermail.Dns.Main
import Splintermail.Dns.Message
import Splintermail.Dns.Names
import Splintermail.Dns.Packet
import Splintermail.Dns.Reads
import Splintermail.Dns.Response
import Splintermail.Dns.Rrl
import Splintermail.Dns.Sections
import Splintermail.Dns.Starts
import Splintermail.Dns.Walk
import Splintermail.Dns.Wellformed
import Splintermail.Dns.Write
import Splintermail.Dstr.Base64
import Splintermail.Dstr.Base64Exact
import Splintermail.Dstr.Bytes
import Splintermail.Dstr.Compare
import Splintermail.Dstr.Count
import Splintermail.Dstr.Find
import Splintermail.Dstr.Integers
import Splintermail.Dstr.Text
import Splintermail.Dstr.Unicode
import Splintermail.Dstr.Utf16Exact
import Splintermail.Dstr.Utf8Exact
import Splintermail.Duv.Concat
import Splintermail.Duv.ConcatSound
import Splintermail.Duv.Connect
import Splintermail.Duv.ConnectClean
import Splintermail.Duv.Contract
import Splintermail.Duv.Delivery
import Splintermail.Duv.Passthru
import Splintermail.Duv.Streaming
import Splintermail.Http.Boundaries
import Splintermail.Http.Chunked
import Splintermail.Http.ChunkedBody
import Splintermail.Http.ChunkedDelivery
import Splintermail.Http.ChunkedParts
import Splintermail.Http.ChunkedSound
import Splintermail.Http.Marshal
import Splintermail.Http.Resume
import Splintermail.Imaildir.Accessors
import Splintermail.Imaildir.Box
import Splintermail.Imaildir.Canonical
import Splintermail.Imaildir.Change
import Splintermail.Imaildir.Client
import Splintermail.Imaildir.Compaction
import Splintermail.Imaildir.Conn
import Splintermail.Imaildir.Custody
import Splintermail.Imaildir.Dn
import Splintermail.Imaildir.ExpungeUpkeep
import Splintermail.Imaildir.Failing
import Splintermail.Imaildir.FetchParts
import Splintermail.Imaildir.Finality
import Splintermail.Imaildir.Gather
import Splintermail.Imaildir.IdleDiscipline
import Splintermail.Imaildir.Index
import Splintermail.Imaildir.IndexUpkeep
import Splintermail.Imaildir.Keyed
import Splintermail.Imaildir.Ledger
import Splintermail.Imaildir.Lifetime
import Splintermail.Imaildir.LogCodec
import Splintermail.Imaildir.LogFile
import Splintermail.Imaildir.LogReplay
import Splintermail.Imaildir.Maildir
import Splintermail.Imaildir.Message
import Splintermail.Imaildir.Name
import Splintermail.Imaildir.Recovery
import Splintermail.Imaildir.Replay
import Splintermail.Imaildir.Reply
import Splintermail.Imaildir.Resolve
import Splintermail.Imaildir.Search
import Splintermail.Imaildir.Select
import Splintermail.Imaildir.Session
import Splintermail.Imaildir.Status
import Splintermail.Imaildir.StoreReport
import Splintermail.Imaildir.UidUpkeep
import Splintermail.Imaildir.Up
import Splintermail.Imaildir.Upkeep
import Splintermail.Imap.Copy
import Splintermail.Imap.Expression
import Splintermail.Imap.Numbers
import Splintermail.Imap.Ranges
import Splintermail.Imap.SeqSet
import Splintermail.Imf.Chunks
import Splintermail.Imf.Fields
import Splintermail.Imf.Hdrs
import Splintermail.Imf.Marks
import Splintermail.Imf.Multipart
import Splintermail.Imf.Offsets
import Splintermail.Imf.Partition
import Splintermail.Imf.Parts
import Splintermail.Imf.Submessage
import Splintermail.Kvpsend.FullScan
import Splintermail.Kvpsync.Agreement
import Splintermail.Kvpsync.Bookkeeping
import Splintermail.Kvpsync.Books
import Splintermail.Kvpsync.Growth
import Splintermail.Kvpsync.Hearing
import Splintermail.Kvpsync.Keeping
import Splintermail.Kvpsync.Oldest
import Splintermail.Kvpsync.Outline
import Splintermail.Kvpsync.Pair
import Splintermail.Kvpsync.Phases
import Splintermail.Kvpsync.Pkts
import Splintermail.Kvpsync.Recv
import Splintermail.Kvpsync.Send
import Splintermail.Kvpsync.Sending
import Splintermail.Kvpsync.Serving
import Splintermail.Kvpsync.Stale
import Splintermail.Kvpsync.Timed
import Splintermail.Lib.ATree
import Splintermail.Lib.BigEndian
import Splintermail.Lib.Framing
import Splintermail.Lib.Fuel
import Splintermail.Lib.Issue
import Splintermail.Lib.Memory
import Splintermail.Lib.Merge
import Splintermail.Lib.Occurrences
import Splintermail.Lib.Resumable
import Splintermail.Lib.Run
import Splintermail.Lib.Search
import Splintermail.Lib.Transducer
import Splintermail.Lib.Traversal
import Splintermail.Lib.Tree
import Splintermail.Lib.Utf8
import Splintermail.Qwwq.Guards
import Splintermail.Qwwq.Lists
import Splintermail.Qwwq.Stack
import Splintermail.Qwwq.Table
import Splintermail.Qwwq.TableText
import Splintermail.Qwwq.Wrap
import Splintermail.Qwwq.WrapLayout
import Splintermail.Qwwq.WrapTokens
import Splintermail.Xkey.Agreement
import Splintermail.Xkey.Xkeysync
