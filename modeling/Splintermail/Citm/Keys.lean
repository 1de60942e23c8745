/-
This file models the keys of a `keydir_t`: its own key, its peers, the list of all keys that
mail is encrypted to, and the directory with the files of the keys.

The lists and the directory are kept in step if a key is only added that is not there yet,
with a text that fits the buffer of a reload, our own key is not deleted, and a reload can
read the files. The functions check none of this: a key that is added again is there twice,
the deletion of our own key frees the object that the `keydir_t` goes on to use, and a
reload deletes every file that it cannot read, for whatever reason.
-/

import Splintermail.Lib.Run
import Splintermail.Dstr.Bytes
import Mathlib.Data.List.Perm.Basic
import Mathlib.Data.List.Nodup

namespace Splintermail

open List

/-! ### Keys and files -/

/-- A file of the key directory. -/
structure Keyfile where
  name : Bytes
  data : Bytes
  deriving DecidableEq

open Keyfile

/-- `keypair_t`, with a number for its allocation. -/
structure Keypair where
  id : Nat
  fingerprint : Bytes
  deriving DecidableEq

/-- How OpenSSL reads a key: the fingerprint of a public or a private key in a text. -/
structure PemReader where
  pubkey : Bytes → Option Bytes
  privateKey : Bytes → Option Bytes

open PemReader

namespace PemReader

variable (ssl : PemReader)

/-- `_read_pem_encoded_key` -/
def readPem (read : Bytes → Option Bytes) (pem : Bytes) : Option Bytes :=
  if pem.length > intMax then none else read pem

/-- `keypair_from_pubkey_pem` -/
def keypairFromPubkeyPem (pem : Bytes) : Option Bytes := readPem ssl.pubkey pem

/-- The buffer that a key file is read to. It must not become full. -/
def keyfileSize : Nat := 8192

/-- `keypair_load_private` -/
def keypairLoadPrivate (data : Bytes) : Option Bytes :=
  if data.length ≥ keyfileSize then none else readPem ssl.privateKey data

/-- `keypair_load_public` -/
def keypairLoadPublic (data : Bytes) : Option Bytes :=
  if data.length ≥ keyfileSize then none
  else readPem ssl.pubkey data <|> readPem ssl.privateKey data

end PemReader

/-- `.pem` -/
def dotPem : Bytes := [46, 112, 101, 109]

/-- `mykey.pem` -/
def mykeyPem : Bytes := [109, 121, 107, 101, 121] ++ dotPem

/-- The name of the file of a peer. -/
def pemName (fpr : Bytes) : Bytes := bin2hex fpr ++ dotPem

/-- A file that `add_peer_key` does not skip. -/
def Keyfile.isPeer (file : Keyfile) : Bool := dotPem.isSuffixOf file.name && file.name ≠ mykeyPem

/-! ### The key directory -/

/-- A `keydir_t`, as far as keys are concerned, with its directory, and with the keypairs that were
freed while it lives. -/
structure KeydirKeys where
  dir : List Keyfile
  mykey : Keypair
  peers : List Keypair
  allKeys : List Keypair
  freed : List Nat
  allocated : Nat
  deriving DecidableEq

/-- An order in which a directory can be read. -/
def ReaddirOrder : Type := {order : List Keyfile → List Keyfile // ∀ dir, (order dir).Perm dir}

/-- What a call of `keydir_new` meets: the key of `gen_key_path`, the order of the directory, the
names of the files that cannot be opened or read, and whether something other than a key fails. -/
structure Reload where
  generated : Bytes
  order : ReaddirOrder
  unreadable : List Bytes := []
  fails : Bool := false

/-- What is made of a file that is there, if it can be read. -/
def Reload.load (reload : Reload) (read : Bytes → Option Bytes) (file : Keyfile) : Option Bytes :=
  if reload.unreadable.contains file.name then none else read file.data

theorem Reload.load_readable {reload : Reload} {file : Keyfile} (readable : file.name ∉ reload.unreadable)
    (read : Bytes → Option Bytes) : reload.load read file = read file.data :=
  if_neg (by simpa using readable)

/-- How far `kd_add_key` gets after the key was read: it stops before the file is opened, the file
cannot be written and is removed, or it is written. -/
inductive AddFate where
  | stopped
  | torn
  | written
  deriving DecidableEq

/-- What happens to the keys of a `keydir_t`. -/
inductive KeysEvent where
  | addKey (pem : Bytes) (fate : AddFate)
  | deleteKey (fpr : Bytes) (removed : Bool)
  | reload (reload : Reload)

namespace KeydirKeys

variable (ssl : PemReader)

/-- A new peer and its copy. -/
def link (keys : KeydirKeys) (fpr : Bytes) : KeydirKeys :=
  { keys with
    peers := keys.peers ++ [⟨keys.allocated, fpr⟩]
    allKeys := keys.allKeys ++ [⟨keys.allocated + 1, fpr⟩]
    allocated := keys.allocated + 2 }

/-- `_rm_key`. A name that is too long for `file` names no file. -/
def rmKey (dir : List Keyfile) (fpr : Bytes) : List Keyfile :=
  dir.filter fun file => file.name ≠ pemName fpr

/-- `_write_key` -/
def writeKey (dir : List Keyfile) (pem fpr : Bytes) : List Keyfile :=
  rmKey dir fpr ++ [⟨pemName fpr, pem⟩]

/-- `kd_add_key` -/
def addKey (keys : KeydirKeys) (pem : Bytes) (fate : AddFate) : KeydirKeys :=
  match ssl.keypairFromPubkeyPem pem with
  | none => keys
  | some fpr =>
    match fate with
    | .stopped => keys
    | .torn => { keys with dir := rmKey keys.dir fpr }
    | .written => { keys with dir := writeKey keys.dir pem fpr }.link fpr

/-- A list after the loop of `kd_delete_key` through it, which stops at the first match. -/
def unlinkFirst (fpr : Bytes) (list : List Keypair) : List Keypair :=
  list.eraseP fun kp => kp.fingerprint = fpr

/-- What the loop of `kd_delete_key` frees. -/
def freedFirst (fpr : Bytes) (list : List Keypair) : List Nat :=
  ((list.find? fun kp => kp.fingerprint = fpr).map Keypair.id).toList

/-- `kd_delete_key`. That a file was not removed is only logged. -/
def deleteKey (keys : KeydirKeys) (fpr : Bytes) (removed : Bool) : KeydirKeys :=
  { keys with
    peers := unlinkFirst fpr keys.peers
    allKeys := unlinkFirst fpr keys.allKeys
    freed := keys.freed ++ freedFirst fpr keys.peers ++ freedFirst fpr keys.allKeys
    dir := if removed then rmKey keys.dir fpr else keys.dir }

/-- `add_peer_key`. A key that cannot be loaded is taken for a broken one. -/
def addPeerKey (reload : Reload) (keys : KeydirKeys) (file : Keyfile) : KeydirKeys :=
  if !file.isPeer then keys
  else
    match reload.load ssl.keypairLoadPublic file with
    | none => { keys with dir := keys.dir.filter fun other => other.name ≠ file.name }
    | some fpr => keys.link fpr

/-- The end of `_load_or_gen_mykey`, where a key is generated. -/
def genMykey (dir : List Keyfile) (generated : Bytes) : Option (Bytes × List Keyfile) :=
  (ssl.keypairLoadPrivate generated).map fun fpr => (fpr, dir ++ [⟨mykeyPem, generated⟩])

/-- `_load_or_gen_mykey`. A key that cannot be loaded is taken for a broken one. -/
def loadOrGenMykey (dir : List Keyfile) (reload : Reload) : Option (Bytes × List Keyfile) :=
  match dir.find? fun file => file.name = mykeyPem with
  | none => genMykey ssl dir reload.generated
  | some file =>
    match reload.load ssl.keypairLoadPrivate file with
    | some fpr => some (fpr, dir)
    | none => genMykey ssl (dir.filter fun other => other.name ≠ mykeyPem) reload.generated

/-- `keydir_new` -/
def keydirNew (dir : List Keyfile) (reload : Reload) : Option KeydirKeys := do
  let (fpr, dir) ← loadOrGenMykey ssl dir reload
  let mykey : Keypair := ⟨0, fpr⟩
  if reload.fails then none
  else some ((reload.order.val dir).foldl (addPeerKey ssl reload) ⟨dir, mykey, [], [mykey], [], 1⟩)

/-- `keydir_new` has failed. -/
structure NotOpened where
  deriving DecidableEq

/-- The keys after an event. -/
def step (keys : KeydirKeys) : KeysEvent → Except NotOpened KeydirKeys
  | .addKey pem fate => .ok (keys.addKey ssl pem fate)
  | .deleteKey fpr removed => .ok (keys.deleteKey fpr removed)
  | .reload reload =>
    match keydirNew ssl keys.dir reload with
    | some keys => .ok keys
    | none => .error ⟨⟩

/-! ### What should hold -/

/-- The fingerprints of keys. -/
def fprs (list : List Keypair) : List Bytes := list.map Keypair.fingerprint

/-- A file as its name and what a reload reads from it. -/
def fileEntry (file : Keyfile) : Bytes × Option Bytes := (file.name, ssl.keypairLoadPublic file.data)

/-- The file that a peer should have. -/
def peerEntry (fpr : Bytes) : Bytes × Option Bytes := (pemName fpr, some fpr)

/-- A reload that can read the files of our own key and of the peers, and does not fail. -/
structure Reads (reload : Reload) (dir : List Keyfile) : Prop where
  files : ∀ file ∈ dir, file.isPeer = true ∨ file.name = mykeyPem → file.name ∉ reload.unreadable
  completes : reload.fails = false

instance (reload : Reload) (dir : List Keyfile) : Decidable (Reads reload dir) :=
  decidable_of_iff ((∀ file ∈ dir, file.isPeer = true ∨ file.name = mykeyPem →
    reload.unreadable.contains file.name = false) ∧ reload.fails = false)
    ⟨fun both => ⟨by simpa using both.1, both.2⟩,
      fun reads => ⟨by simpa using reads.files, reads.completes⟩⟩

/-- Two states have the same keys. -/
structure SameKeys (keys next : KeydirKeys) : Prop where
  mykey : next.mykey.fingerprint = keys.mykey.fingerprint
  peers : (fprs next.peers).Perm (fprs keys.peers)
  allKeys : (fprs next.allKeys).Perm (fprs keys.allKeys)

/-- A reload yields the same keys. -/
def Yields (keys : KeydirKeys) (event : KeysEvent) (next : KeydirKeys) : Prop :=
  ∀ reload, event = .reload reload → SameKeys keys next

/-- A key is added that is not there yet and whose text fits the buffer of a reload, one that is
deleted is not our own and its file is removed, and a reload can read the files. -/
def Fresh (keys : KeydirKeys) : KeysEvent → Prop
  | .addKey _ .stopped => True
  | .addKey pem .torn => ∀ fpr ∈ ssl.keypairFromPubkeyPem pem, fpr ∉ fprs keys.peers
  | .addKey pem .written => ∀ fpr ∈ ssl.keypairFromPubkeyPem pem,
      fpr ∉ fprs keys.allKeys ∧ pem.length < keyfileSize
  | .deleteKey fpr removed =>
      fpr ≠ keys.mykey.fingerprint ∧ (removed = false → fpr ∉ fprs keys.peers)
  | .reload reload => Reads reload keys.dir

instance (keys : KeydirKeys) : (event : KeysEvent) → Decidable (Fresh ssl keys event)
  | .addKey _ .stopped => isTrue trivial
  | .addKey _ .torn => inferInstanceAs (Decidable (∀ fpr ∈ _, _))
  | .addKey _ .written => inferInstanceAs (Decidable (∀ fpr ∈ _, _))
  | .deleteKey _ _ => inferInstanceAs (Decidable (_ ∧ _))
  | .reload reload => inferInstanceAs (Decidable (Reads reload keys.dir))

/-! ### Names of files -/

theorem pemName_injective {first second : Bytes} (same : pemName first = pemName second) :
    first = second := by
  have hex : bin2hex first = bin2hex second := append_cancel_right same
  have read := hex2bin_bin2hex first
  rw [hex, hex2bin_bin2hex] at read
  exact (Except.ok.inj read).symm

/-- A fingerprint in hex has an even length, and `mykey` has not. -/
theorem pemName_ne_mykeyPem (fpr : Bytes) : pemName fpr ≠ mykeyPem := fun same => by
  have hex : (bin2hex fpr).length = 5 := congrArg length (append_cancel_right same)
  have even : (bin2hex fpr).length = 2 * fpr.length := by
    simp [bin2hex, length_flatMap, Nat.mul_comm]
  omega

theorem isPeer_pemName (fpr data : Bytes) : isPeer ⟨pemName fpr, data⟩ = true := by
  have ends : dotPem.isSuffixOf (pemName fpr) = true :=
    isSuffixOf_iff_suffix.mpr (suffix_append _ _)
  simp [isPeer, ends, pemName_ne_mykeyPem]

/-- The file with our own key. -/
def ownFile (dir : List Keyfile) : Option Keyfile := dir.find? fun file => file.name = mykeyPem

theorem ownFile_rmKey (dir : List Keyfile) (fpr : Bytes) : ownFile (rmKey dir fpr) = ownFile dir := by
  rw [ownFile, rmKey, find?_filter, ownFile]
  refine congrArg (fun test => dir.find? test) (funext fun file => ?_)
  by_cases own : file.name = mykeyPem
  · simp [own, Ne.symm (pemName_ne_mykeyPem fpr)]
  · simp [own]

/-! ### The first match -/

variable {fpr : Bytes} {list : List Keypair}

theorem fprs_unlinkFirst : fprs (unlinkFirst fpr list) = (fprs list).erase fpr := by
  rw [unlinkFirst, fprs, fprs, erase_eq_eraseP, eraseP_map]
  congr 1
  refine congrArg (fun test => list.eraseP test) (funext fun kp => ?_)
  by_cases same : kp.fingerprint = fpr
  · simp [same]
  · simp [same, Ne.symm same]

theorem mem_freedFirst {id : Nat} (freed : id ∈ freedFirst fpr list) :
    ∃ kp ∈ list, kp.fingerprint = fpr ∧ kp.id = id := by
  rw [freedFirst, Option.mem_toList, Option.map_eq_some_iff] at freed
  obtain ⟨kp, found, same⟩ := freed
  exact ⟨kp, mem_of_find?_eq_some found, by simpa using find?_some found, same⟩

/-! ### The invariant -/

/-- The lists are in step: after our own key, the list of all keys has a copy of each peer, in their
order, and no other keypair is the object of our own key. -/
structure Linked (keys : KeydirKeys) : Prop where
  lists : ∃ copies, keys.allKeys = keys.mykey :: copies ∧ fprs copies = fprs keys.peers ∧
    ∀ kp ∈ copies, kp.id ≠ keys.mykey.id
  apart : ∀ kp ∈ keys.peers, kp.id ≠ keys.mykey.id
  older : keys.mykey.id < keys.allocated

/-- The lists and the directory are in step. -/
structure Sound (keys : KeydirKeys) : Prop extends Linked keys where
  alive : keys.mykey.id ∉ keys.freed
  once : (keys.mykey.fingerprint :: fprs keys.peers).Nodup
  files : ((keys.dir.filter isPeer).map (fileEntry ssl)).Perm ((fprs keys.peers).map peerEntry)
  own : ∃ file, ownFile keys.dir = some file ∧
    ssl.keypairLoadPrivate file.data = some keys.mykey.fingerprint

variable {ssl} {keys : KeydirKeys}

theorem Linked.fprs_allKeys (linked : Linked keys) :
    fprs keys.allKeys = keys.mykey.fingerprint :: fprs keys.peers := by
  obtain ⟨copies, all, same, _⟩ := linked.lists
  rw [all, ← same]
  rfl

theorem fprs_link (keys : KeydirKeys) (fpr : Bytes) :
    fprs (keys.link fpr).peers = fprs keys.peers ++ [fpr] := map_append

theorem Linked.link (linked : Linked keys) (fpr : Bytes) : Linked (keys.link fpr) := by
  obtain ⟨copies, all, same, copyIds⟩ := linked.lists
  have newer := linked.older
  refine ⟨⟨copies ++ [⟨keys.allocated + 1, fpr⟩], ?_, ?_, ?_⟩, ?_, Nat.lt_add_right 2 newer⟩
  · show keys.allKeys ++ _ = _
    rw [all]
    rfl
  · rw [fprs_link, fprs, map_append]
    exact congrArg (· ++ [fpr]) same
  · intro kp mem
    rcases mem_append.mp mem with old | new
    · exact copyIds kp old
    · rw [mem_singleton.mp new]
      exact Nat.ne_of_gt (Nat.lt_succ_of_lt newer)
  · intro kp mem
    rcases mem_append.mp mem with old | new
    · exact linked.apart kp old
    · rw [mem_singleton.mp new]
      exact Nat.ne_of_gt newer

/-- A new peer, with its file in the directory. -/
theorem Sound.link {dir : List Keyfile} (sound : Sound ssl keys)
    (fresh : fpr ∉ fprs keys.allKeys)
    (files : ((dir.filter isPeer).map (fileEntry ssl)).Perm
      ((fprs keys.peers ++ [fpr]).map peerEntry))
    (own : ownFile dir = ownFile keys.dir) :
    Sound ssl ({ keys with dir }.link fpr) := by
  have linked : Linked { keys with dir } := { sound.toLinked with }
  have peers : fprs ({ keys with dir }.link fpr).peers = fprs keys.peers ++ [fpr] := fprs_link _ _
  refine { linked.link fpr with alive := sound.alive, once := ?_, files := ?_, own := ?_ }
  · rw [peers, ← cons_append]
    rw [sound.fprs_allKeys] at fresh
    exact nodup_append.mpr ⟨sound.once, nodup_singleton fpr,
      fun old before new after same => fresh (mem_singleton.mp after ▸ same ▸ before)⟩
  · rw [peers]
    exact files
  · obtain ⟨file, found, loaded⟩ := sound.own
    exact ⟨file, own.trans found, loaded⟩

theorem entries_rmKey (dir : List Keyfile) (fpr : Bytes) :
    ((rmKey dir fpr).filter isPeer).map (fileEntry ssl) =
      ((dir.filter isPeer).map (fileEntry ssl)).filter fun entry => entry.1 ≠ pemName fpr := by
  rw [rmKey, filter_comm, filter_map]
  rfl

theorem Sound.files_rmKey (sound : Sound ssl keys) (fpr : Bytes) :
    (((rmKey keys.dir fpr).filter isPeer).map (fileEntry ssl)).Perm
      (((fprs keys.peers).erase fpr).map peerEntry) := by
  have distinct : (fprs keys.peers).Nodup := (nodup_cons.mp sound.once).2
  have names : ((fprs keys.peers).map peerEntry).filter (fun entry => entry.1 ≠ pemName fpr) =
      ((fprs keys.peers).erase fpr).map peerEntry := by
    rw [filter_map, distinct.erase_eq_filter]
    refine congrArg (fun test => ((fprs keys.peers).filter test).map peerEntry) ?_
    funext other
    by_cases same : other = fpr
    · simp [same, peerEntry]
    · have apart : pemName other ≠ pemName fpr := fun equal => same (pemName_injective equal)
      simp [same, peerEntry, apart]
  rw [entries_rmKey, ← names]
  exact sound.files.filter _

theorem Sound.addKey {pem : Bytes} {fate : AddFate} (sound : Sound ssl keys)
    (fresh : Fresh ssl keys (.addKey pem fate)) : Sound ssl (keys.addKey ssl pem fate) := by
  unfold KeydirKeys.addKey
  split
  · exact sound
  next fpr read =>
  cases fate with
  | stopped => exact sound
  | torn =>
    have unknown : fpr ∉ fprs keys.peers := fresh fpr read
    have files := sound.files_rmKey fpr
    rw [erase_of_not_mem unknown] at files
    obtain ⟨file, found, loaded⟩ := sound.own
    exact { sound with files, own := ⟨file, (ownFile_rmKey _ _).trans found, loaded⟩ }
  | written =>
    obtain ⟨unknown, fits⟩ := fresh fpr read
    have notPeer : fpr ∉ fprs keys.peers := fun mem =>
      unknown (sound.fprs_allKeys ▸ .tail _ mem)
    have loads : fileEntry ssl ⟨pemName fpr, pem⟩ = peerEntry fpr := by
      have asPubkey : readPem ssl.pubkey pem = some fpr := read
      simp [fileEntry, peerEntry, keypairLoadPublic, fits, asPubkey]
    refine sound.link unknown ?_ ?_
    · have files := sound.files_rmKey fpr
      rw [erase_of_not_mem notPeer] at files
      rw [writeKey, filter_append, map_append, map_append]
      refine files.append (Perm.of_eq ?_)
      simp [isPeer_pemName, loads]
    · rw [writeKey, ownFile, find?_append, ← ownFile, ownFile_rmKey]
      simp [pemName_ne_mykeyPem]

theorem Sound.deleteKey {removed : Bool} (sound : Sound ssl keys)
    (fresh : Fresh ssl keys (.deleteKey fpr removed)) : Sound ssl (keys.deleteKey fpr removed) := by
  obtain ⟨other, unremoved⟩ := fresh
  obtain ⟨copies, all, same, copyIds⟩ := sound.lists
  have remaining : unlinkFirst fpr keys.allKeys = keys.mykey :: unlinkFirst fpr copies := by
    rw [all, unlinkFirst, eraseP_cons_of_neg (by simpa using Ne.symm other)]
    rfl
  have peers : fprs (keys.deleteKey fpr removed).peers = (fprs keys.peers).erase fpr :=
    fprs_unlinkFirst
  have linked : Linked (keys.deleteKey fpr removed) := by
    refine ⟨⟨unlinkFirst fpr copies, remaining, ?_, fun kp mem =>
      copyIds kp (mem_of_mem_eraseP mem)⟩,
      fun kp mem => sound.apart kp (mem_of_mem_eraseP mem), sound.older⟩
    rw [peers, fprs_unlinkFirst, same]
  refine { linked with alive := ?_, once := ?_, files := ?_, own := ?_ }
  · intro freed
    rcases mem_append.mp freed with earlier | freed
    · rcases mem_append.mp earlier with earlier | freed
      · exact sound.alive earlier
      · obtain ⟨kp, mem, _, id⟩ := mem_freedFirst freed
        exact sound.apart kp mem id
    · obtain ⟨kp, mem, print, id⟩ := mem_freedFirst freed
      rw [all] at mem
      rcases mem_cons.mp mem with rfl | copy
      · exact other print.symm
      · exact copyIds kp copy id
  · rw [peers]
    exact sound.once.sublist (Sublist.cons_cons _ erase_sublist)
  · rw [peers]
    cases removed with
    | true => exact sound.files_rmKey fpr
    | false =>
      rw [erase_of_not_mem (unremoved rfl)]
      exact sound.files
  · obtain ⟨file, found, loaded⟩ := sound.own
    cases removed with
    | true => exact ⟨file, (ownFile_rmKey _ _).trans found, loaded⟩
    | false => exact ⟨file, found, loaded⟩

/-! ### Loading a directory -/

/-- What the loop of `keydir_new` does with files that can all be loaded. -/
theorem foldl_addPeerKey {reload : Reload} {files : List Keyfile} {loaded : List Bytes}
    (reads : (files.filter isPeer).map (reload.load ssl.keypairLoadPublic) = loaded.map some)
    (keys : KeydirKeys) :
    files.foldl (KeydirKeys.addPeerKey ssl reload) keys = loaded.foldl KeydirKeys.link keys := by
  induction files generalizing keys loaded with
  | nil =>
    rw [filter_nil, map_nil, eq_comm, map_eq_nil_iff] at reads
    rw [reads]
    rfl
  | cons file rest ih =>
    rw [foldl_cons]
    cases peer : file.isPeer with
    | false =>
      rw [filter_cons_of_neg (by simp [peer])] at reads
      have skipped : keys.addPeerKey ssl reload file = keys := by simp [addPeerKey, peer]
      rw [skipped, ih reads]
    | true =>
      rw [filter_cons_of_pos peer, map_cons, eq_comm, map_eq_cons_iff] at reads
      obtain ⟨fpr, others, rfl, read, later⟩ := reads
      have linked : keys.addPeerKey ssl reload file = keys.link fpr := by
        simp [addPeerKey, peer, ← read]
      rw [linked, ih later.symm, foldl_cons]

/-- The keys right after `_load_or_gen_mykey`. -/
def opened (dir : List Keyfile) (fpr : Bytes) : KeydirKeys := ⟨dir, ⟨0, fpr⟩, [], [⟨0, fpr⟩], [], 1⟩

/-- What linking does to everything but the numbers of the keypairs. -/
theorem foldl_link (loaded : List Bytes) (keys : KeydirKeys) :
    (loaded.foldl link keys).dir = keys.dir ∧ (loaded.foldl link keys).mykey = keys.mykey ∧
      (loaded.foldl link keys).freed = keys.freed ∧
      fprs (loaded.foldl link keys).peers = fprs keys.peers ++ loaded := by
  induction loaded generalizing keys with
  | nil => simp
  | cons fpr rest ih =>
    obtain ⟨dir, mykey, freed, peers⟩ := ih (keys.link fpr)
    refine ⟨dir, mykey, freed, peers.trans ?_⟩
    rw [fprs_link, append_assoc]
    rfl

theorem Linked.foldl (linked : Linked keys) (loaded : List Bytes) :
    Linked (loaded.foldl KeydirKeys.link keys) := by
  induction loaded generalizing keys with
  | nil => exact linked
  | cons fpr rest ih => exact ih (linked.link fpr)

/-- What a directory that is in step with peers has for each of them, in the order of the files. -/
theorem exists_loaded {entries : List (Bytes × Option Bytes)} {prints : List Bytes}
    (files : entries.Perm (prints.map peerEntry)) :
    ∃ loaded : List Bytes, entries = loaded.map peerEntry ∧ loaded.Perm prints := by
  let loaded := entries.map fun entry => entry.2.getD []
  have back : (prints.map peerEntry).map (fun entry => entry.2.getD []) = prints := by
    simp [peerEntry, Function.comp_def]
  refine ⟨loaded, ?_, (files.map _).trans (Perm.of_eq back)⟩
  rw [map_map]
  refine (map_id entries).symm.trans (map_congr_left fun entry mem => ?_)
  obtain ⟨fpr, _, same⟩ := mem_map.mp (files.subset mem)
  rw [← same]
  rfl

section

variable (sound : Sound ssl keys)

include sound

/-- A reload that can read the files finds the same keys. -/
theorem Sound.keydirNew {reload : Reload} (readable : Reads reload keys.dir) :
    ∃ next, keydirNew ssl keys.dir reload = some next ∧ Sound ssl next ∧ SameKeys keys next := by
  obtain ⟨file, found, ownLoaded⟩ := sound.own
  have named : file.name = mykeyPem := by simpa using find?_some found
  have ownRead : reload.load ssl.keypairLoadPrivate file = some keys.mykey.fingerprint := by
    rw [Reload.load_readable (readable.files file (mem_of_find?_eq_some found) (.inr named))]
    exact ownLoaded
  have kept : loadOrGenMykey ssl keys.dir reload = some (keys.mykey.fingerprint, keys.dir) := by
    rw [ownFile] at found
    simp [loadOrGenMykey, found, ownRead]
  have listed := (((reload.order.property keys.dir).filter isPeer).map (fileEntry ssl)).trans
    sound.files
  obtain ⟨loaded, entries, same⟩ := exists_loaded listed
  have reads : ((reload.order.val keys.dir).filter isPeer).map
      (reload.load ssl.keypairLoadPublic) = loaded.map some := by
    have seconds := congrArg (map Prod.snd) entries
    rw [map_map, map_map] at seconds
    refine Eq.trans (map_congr_left fun other mem => ?_) seconds
    obtain ⟨inDir, peer⟩ := mem_filter.mp mem
    exact Reload.load_readable
      (readable.files other ((reload.order.property keys.dir).subset inDir) (.inl peer)) _
  let start := opened keys.dir keys.mykey.fingerprint
  obtain ⟨dir, mykey, freed, peers⟩ := foldl_link loaded start
  have linked : Linked start := ⟨⟨[], rfl, rfl, nofun⟩, nofun, Nat.one_pos⟩
  have result : KeydirKeys.keydirNew ssl keys.dir reload =
      some (loaded.foldl KeydirKeys.link start) := by
    rw [KeydirKeys.keydirNew, kept, ← foldl_addPeerKey reads]
    show (if reload.fails then none else some _) = _
    rw [readable.completes]
    rfl
  have mine : (loaded.foldl KeydirKeys.link start).mykey.fingerprint = keys.mykey.fingerprint :=
    (congrArg Keypair.fingerprint mykey).trans rfl
  have samePeers : (fprs (loaded.foldl KeydirKeys.link start).peers).Perm (fprs keys.peers) := by
    rw [peers]
    exact same
  refine ⟨_, result, { linked.foldl loaded with alive := ?_, once := ?_, files := ?_, own := ?_ },
    mine, samePeers, ?_⟩
  · rw [freed]
    exact not_mem_nil
  · rw [mykey, peers]
    exact (same.cons _).nodup_iff.mpr sound.once
  · rw [dir, peers]
    exact sound.files.trans (same.symm.map peerEntry)
  · rw [dir, mykey]
    exact ⟨file, found, ownLoaded⟩
  · rw [(linked.foldl loaded).fprs_allKeys, sound.fprs_allKeys, mine]
    exact samePeers.cons _

/-! ### Runs -/

theorem Sound.step {event : KeysEvent} (fresh : Fresh ssl keys event) :
    Outcome.Sat (step ssl keys event) (Sound ssl) fun _ => False := by
  cases event with
  | addKey pem fate => exact sound.addKey fresh
  | deleteKey fpr removed => exact sound.deleteKey fresh
  | reload reload =>
    obtain ⟨next, result, reloaded, -⟩ := sound.keydirNew fresh
    rw [KeydirKeys.step, result]
    exact reloaded

theorem Sound.yields {event : KeysEvent} (fresh : Fresh ssl keys event) {next : KeydirKeys}
    (stepped : KeydirKeys.step ssl keys event = .ok next) : Yields keys event next := by
  rintro reload rfl
  obtain ⟨reloaded, result, -, same⟩ := sound.keydirNew fresh
  rw [KeydirKeys.step, result] at stepped
  cases stepped
  exact same

end

/-- What can follow a key in a text. -/
def newlines : Bytes := replicate 8190 10

end KeydirKeys

end Splintermail
