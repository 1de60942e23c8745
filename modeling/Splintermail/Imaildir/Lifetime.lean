/-
This file is the induction principle of the life of a mailbox.

A mailbox is opened, operated on and closed, and it may crash at any point. What
lasts over all this is a property of open boxes together with one of disks. The
changes of a running box keep the first, and every disk that is ever written has the
second, so that a mailbox is opened with the first again.

The first instance is soundness itself, which all others rely on.
-/

import Splintermail.Imaildir.Recovery

namespace Splintermail

open List Box

namespace Box

variable {host : Host} {box next : Box} {allowed : ChangeKind → Prop}

/-! ### Operations -/

/-- What an operation on an open mailbox leaves: a changed box, or one for a new UIDVALIDITY. -/
inductive Leaves (host : Host) (allowed : ChangeKind → Prop) (box : Box) (operation : Operation) :
    Box → Prop
  | changed {next : Box} (evolves : Evolves host allowed box next) : Leaves host allowed box operation next
  | noted {uidvldUp now : Nat} (isCheck : operation = .checkUidvldUp uidvldUp now)
      (differs : box.store.uidvldUp ≠ uidvldUp) (unknown : box.store.uidvldUp = 0) :
      Leaves host allowed box operation (box.setUidvlds host uidvldUp ((uidvldUp + now) % 2 ^ 32))
  | dropped {uidvldUp now : Nat} {next : Box} (isCheck : operation = .checkUidvldUp uidvldUp now)
      (full : box.store.lite = false) (differs : box.store.uidvldUp ≠ uidvldUp)
      (known : box.store.uidvldUp ≠ 0) (dropped : Dropped box next) :
      Leaves host allowed box operation (next.setUidvlds host uidvldUp ((uidvldUp + now) % 2 ^ 32))

theorem upCheckUidvldUp_leaves (host : Host) (full : box.store.lite = false) (uidvldUp now : Nat) :
    ∃ next, box.upCheckUidvldUp host uidvldUp now = .ok next ∧
      Leaves host allowed box (.checkUidvldUp uidvldUp now) next := by
  unfold upCheckUidvldUp
  dsimp only
  split
  · exact ⟨box, rfl, .changed Evolves.refl⟩
  rename_i differs
  split
  · rename_i unknown
    exact ⟨_, rfl, .noted rfl differs unknown⟩
  · rename_i known
    obtain ⟨next, result, dropped⟩ := dropCache_spec host box
    refine ⟨_, ?_, .dropped rfl full differs known dropped⟩
    rw [result]
    rfl

/-- The operation drops the cache. -/
def drops (box : Box) : Operation → Bool
  | .checkUidvldUp uidvldUp _ => box.store.uidvldUp ≠ uidvldUp && box.store.uidvldUp ≠ 0
  | _ => false

/-- The condition on the messages that an operation enters or expunges. -/
structure Admits (allowed : ChangeKind → Prop) (box : Box) (operation : Operation) : Prop where
  meet : ∀ key, box.meets operation = some key → allowed (.meet key (box.findExpunge key).isSome)
  twice : ∀ key, operation.expires = some key → box.isTwice key = true → allowed .twice

/-- Every operation leaves a box, and one that fails leaves a changed one. -/
theorem run_leaves (plain : allowed .plain) (working : allowed .working)
    (finalize : allowed (.finalize true)) (sound : Sound box)
    (locals : Locals box) {operation : Operation} (offers : box.Offers operation)
    (full : box.store.lite = false ∨ operation.isAddLocal = true) (admits : box.Admits allowed operation) :
    Outcome.Sat (operation.run host box) (Leaves host allowed box operation)
      (fun failure => Evolves host allowed box failure.2) := by
  by_cases keepsCache : operation.keepsCache = true
  · exact (run_outcomes plain working finalize sound locals keepsCache offers full admits.meet
      admits.twice).mono fun next evolves => .changed evolves
  · cases operation with
    | checkUidvldUp uidvldUp now =>
      obtain ⟨next, result, leaves⟩ :=
        upCheckUidvldUp_leaves host (full.resolve_right nofun) uidvldUp now
      have outcome : (Operation.checkUidvldUp uidvldUp now).run host box = .ok next := result
      rw [outcome]
      exact leaves
    | fetchResp resp epoch | vanished uidUp | setHimodseqUp himodseqUp
    | addLocalFile uidUp length internaldate flags epoch | storeOne key sign flags
    | expungeOne key | openDn id examine | closeDn id | callDn id call | syncDn id resp =>
      exact absurd rfl keepsCache

/-- The box between two operations. -/
def settled (box : Box) : Box := { box with trail := [] }

theorem Sound.settled (sound : Sound box) : Sound box.settled where
  keyed := sound.keyed
  ledger := sound.ledger
  log := sound.log
  explicit := sound.explicit
  held := sound.held
  trail _ mem := absurd mem not_mem_nil

theorem Dropped.trail_sound {old : Box} (dropped : Dropped old box) (sound : Sound old) :
    ∀ disk ∈ box.trail, SoundLog disk.cache := by
  intro disk mem
  rcases dropped.trail disk mem with before | ⟨same, -⟩ | ⟨none, -⟩
  · exact sound.trail disk before
  · rw [same]
    exact sound.log
  · rw [none]
    exact SoundLog.nil

end Box

/-! ### What lasts -/

/-- A property that lasts over the life of a mailbox: `early` while it is opened, `always` while it
is open, and `onDisk` on the disk at any point, with the changes that keep it. Whether the cache may
be removed, and whether a new `uidvld_dn` may be taken, is asked of the assignments so far. -/
structure Lasting (host : Host) where
  early : Disk → Box → Prop
  always : Box → Prop
  onDisk : Disk → Prop
  opening : Disk → ChangeKind → Prop
  running : ChangeKind → Prop
  wipes : List Assignment → Prop
  renews : List Assignment → Nat → Prop
  openingPlain : ∀ disk, opening disk .plain
  runningPlain : running .plain
  runningWorking : running .working
  runningFinalize : running (.finalize true)
  opens : ∀ {disk : Disk} {box next : Box} {kind : ChangeKind}, opening disk kind →
    Change host box kind next → box.Sound → early disk box → early disk next
  runs : ∀ {box next : Box} {kind : ChangeKind}, running kind → Change host box kind next →
    box.Sound → always box → always next
  earlyDisks : ∀ {start : Disk} {box : Box}, box.Sound → early start box →
    ∀ disk ∈ box.disk :: box.trail, onDisk disk
  alwaysDisks : ∀ {box : Box}, box.Sound → always box → ∀ disk ∈ box.disk :: box.trail, onDisk disk
  loaded : ∀ {disk : Disk} {lite : Bool} {read : LogState}, SoundLog disk.cache → onDisk disk →
    read.Describes (initial disk lite).disk.cache → early disk ((initial disk lite).loaded read)
  opened : ∀ {disk : Disk} {box : Box}, box.Sound → early disk box → box.dns = [] → (box.store.lite = false →
    ∀ msg ∈ box.store.msgs, msg.state = .filled → msg.file.isSome = true) → always box.detectHi
  settled : ∀ {box : Box}, box.Sound → always box → always box.settled
  noted : ∀ {box : Box} (uidvldUp uidvldDn : Nat), box.Sound → always box → box.store.uidvldUp = 0 →
    renews box.disk.assigned uidvldDn → always (box.setUidvlds host uidvldUp uidvldDn)
  dropped : ∀ {box next : Box} (uidvldUp uidvldDn : Nat), box.Sound → always box → box.Dropped next →
    box.store.uidvldUp ≠ 0 → box.store.lite = false → box.holdsOld = false →
      renews box.disk.assigned uidvldDn → always (next.setUidvlds host uidvldUp uidvldDn).settled
  droppedDisks : ∀ {box next : Box} (uidvldUp uidvldDn : Nat), box.Sound → always box →
    box.Dropped next → renews box.disk.assigned uidvldDn → wipes box.disk.assigned →
      ∀ disk ∈ (next.setUidvlds host uidvldUp uidvldDn).trail, onDisk disk
  removed : ∀ {box next : Box}, box.Sound → always box → box.Removed next → wipes box.disk.assigned →
    ∀ disk ∈ next.disk :: next.trail, onDisk disk

/-! ### The life of a mailbox -/

/-- The action of an event, done or interrupted. -/
def MaildirEvent.action : MaildirEvent → Action
  | .act action => action
  | .crash action _ => action

namespace Maildir

variable {host : Host} {state : Maildir}

/-- The mailbox has a sound log, and an open one is sound. -/
def Sound : Maildir → Prop
  | .closed disk => SoundLog disk.cache
  | .opened box => box.Sound ∧ box.Locals ∧ box.trail = []

/-- The mailbox has a lasting property. -/
def Holds (lasting : Lasting host) : Maildir → Prop
  | .closed disk => lasting.onDisk disk
  | .opened box => lasting.always box

/-- The condition on adding local files. -/
def OffersAction : Maildir → Action → Prop
  | .opened box, .operation operation => box.Offers operation
  | _, _ => True

instance (state : Maildir) (action : Action) : Decidable (state.OffersAction action) :=
  match state, action with
  | .opened box, .operation operation => inferInstanceAs (Decidable (box.Offers operation))
  | .closed _, _ | .opened _, .init _ | .opened _, .close _ => isTrue trivial

/-- The condition on an event of a run. -/
def Offers (state : Maildir) (event : MaildirEvent) : Prop := state.OffersAction event.action

instance (state : Maildir) (event : MaildirEvent) : Decidable (state.Offers event) :=
  inferInstanceAs (Decidable (state.OffersAction event.action))

/-- The changes of an action are among those that keep a lasting property. -/
def Permits (lasting : Lasting host) : Maildir → Action → Prop
  | .closed disk, .init lite => lite = true ∨
    (((∀ filed, lasting.opening disk (.finalize filed)) ∨ disk.Settled) ∧
      (lasting.opening disk .missing ∨ disk.Complete))
  | .opened box, .operation operation => box.Admits lasting.running operation ∧
    ∀ uidvldUp now, operation = .checkUidvldUp uidvldUp now → box.store.uidvldUp ≠ uidvldUp →
      lasting.renews box.disk.assigned ((uidvldUp + now) % 2 ^ 32)
  | .opened box, .close rmOnClose => rmOnClose = true → lasting.wipes box.disk.assigned
  | _, _ => True

/-- The action may be interrupted, also while it drops the cache. -/
def Interrupts (lasting : Lasting host) : Maildir → Action → Prop
  | .opened box, .operation operation => box.drops operation = true → lasting.wipes box.disk.assigned
  | _, _ => True

theorem Sound.log (sound : state.Sound) : SoundLog state.disk.cache := by
  cases state with
  | closed disk => exact sound
  | opened box => exact sound.1.log

/-- What an operation does to an open mailbox: it leaves a box and the disks that were written,
and closes the mailbox only when it failed. -/
theorem act_operation (host : Host) {allowed : ChangeKind → Prop} {box : Box} (plain : allowed .plain)
    (working : allowed .working) (finalize : allowed (.finalize true)) (sound : (Maildir.opened box).Sound) {operation : Operation}
    (offers : box.Offers operation) (admits : box.Admits allowed operation) :
    ∃ next, Leaves host allowed box operation next ∧
      ((Maildir.opened box).act host (.operation operation) = (.opened next.settled, next.trail) ∨
        (Evolves host allowed box next ∧
          (Maildir.opened box).act host (.operation operation) = (.closed next.disk, next.trail))) := by
  obtain ⟨boxSound, locals, trail⟩ := sound
  unfold act
  dsimp only
  split
  · refine ⟨box, .changed Evolves.refl, .inl ?_⟩
    obtain ⟨store, disk, written, dns⟩ := box
    cases trail
    rfl
  · rename_i notLite
    have full : box.store.lite = false ∨ operation.isAddLocal = true := by
      cases lite : box.store.lite with
      | false => exact .inl rfl
      | true =>
        rw [lite] at notLite
        simpa using notLite
    have leaves : Outcome.Sat (operation.run host box) (Leaves host allowed box operation)
        (fun failure => Evolves host allowed box failure.2) :=
      run_leaves plain working finalize boxSound locals offers full admits
    cases outcome : operation.run host box with
    | ok next => exact ⟨next, leaves.of_ok outcome, .inl rfl⟩
    | error failure =>
      obtain ⟨error, next⟩ := failure
      have evolves : Evolves host allowed box next := leaves.of_error outcome
      dsimp only
      unfold failed
      split
      · exact ⟨next, .changed evolves, .inl rfl⟩
      · have dropped : Evolves host allowed next next.dropAccessors :=
          dropAccessors_evolves working (evolves.sound boxSound)
        exact ⟨_, .changed (evolves.trans dropped), .inr ⟨evolves.trans dropped, rfl⟩⟩

theorem freeUpdates_assigned (box : Box) (updates : List Update) :
    (box.freeUpdates updates).disk.assigned = box.disk.assigned := by
  unfold freeUpdates
  induction updates generalizing box with
  | nil => rfl
  | cons update rest ih =>
    rw [foldl_cons, ih]
    unfold freeUpdate removeAndDeleteMsg
    split
    · split
      · split
        · rfl
        · split <;> rfl
      · rfl
    · rfl

theorem dropAccessors_assigned (box : Box) :
    box.dropAccessors.disk.assigned = box.disk.assigned := by
  unfold dropAccessors
  generalize box.dns.map Dn.id = ids
  induction ids generalizing box with
  | nil => rfl
  | cons id rest ih =>
    rw [foldl_cons, ih]
    unfold closeDn
    split
    · rfl
    · exact freeUpdates_assigned _ _

/-- What closing does to an open mailbox. -/
theorem act_close (host : Host) {allowed : ChangeKind → Prop} {box : Box}
    (working : allowed .working) (sound : box.Sound) (rmOnClose : Bool) :
    ∃ last next, Evolves host allowed box last ∧
      (next = last ∨ rmOnClose = true ∧ last.disk.assigned = box.disk.assigned ∧ last.Removed next) ∧
      (Maildir.opened box).act host (.close rmOnClose) = (.closed next.disk, next.trail) := by
  refine ⟨box.dropAccessors, _, dropAccessors_evolves working sound, ?_, rfl⟩
  unfold free
  split
  · rename_i removes
    exact .inr ⟨removes, dropAccessors_assigned box, removeAll_spec _⟩
  · exact .inl rfl

end Maildir

namespace Lasting

variable {host : Host} {state : Maildir} {box next : Box}

section

variable (lasting : Lasting host)

theorem evolves (evolves : Evolves host lasting.running box next) (sound : box.Sound)
    (holds : lasting.always box) : next.Sound ∧ lasting.always next :=
  evolves.keepsSound lasting.runs sound holds

/-- An operation leaves only good disks, and a good box unless it frees messages that are still
referred to. -/
theorem leaves {operation : Operation} (sound : box.Sound) (locals : box.Locals)
    (holds : lasting.always box) (renews : ∀ uidvldUp now, operation = .checkUidvldUp uidvldUp now →
      box.store.uidvldUp ≠ uidvldUp → lasting.renews box.disk.assigned ((uidvldUp + now) % 2 ^ 32))
    (leaves : Leaves host lasting.running box operation next) :
    (∀ disk ∈ next.trail, SoundLog disk.cache ∧
      ((box.drops operation = true → lasting.wipes box.disk.assigned) → lasting.onDisk disk)) ∧
      ((Maildir.opened box).dangles (.operation operation) = false →
        next.Sound ∧ next.Locals ∧ lasting.always next.settled) := by
  cases leaves with
  | changed evolves =>
    obtain ⟨nextSound, nextHolds⟩ := lasting.evolves evolves sound holds
    have nextLocals : next.Locals := evolves.keeps (fun _ change locals => locals.change change) locals
    refine ⟨fun disk mem => ⟨nextSound.trail disk mem, fun _ => ?_⟩,
      fun _ => ⟨nextSound, nextLocals, lasting.settled nextSound nextHolds⟩⟩
    exact lasting.alwaysDisks nextSound nextHolds disk (.tail _ mem)
  | @noted uidvldUp now isCheck differs unknown =>
    have nextSound : (box.setUidvlds host uidvldUp ((uidvldUp + now) % 2 ^ 32)).Sound :=
      sound.setUidvlds _ _
    have nextHolds := lasting.noted uidvldUp ((uidvldUp + now) % 2 ^ 32) sound holds unknown
      (renews uidvldUp now isCheck differs)
    refine ⟨fun disk mem => ⟨nextSound.trail disk mem, fun _ => ?_⟩,
      fun _ => ⟨nextSound, locals.setUidvlds _ _, lasting.settled nextSound nextHolds⟩⟩
    exact lasting.alwaysDisks nextSound nextHolds disk (.tail _ mem)
  | @dropped uidvldUp now middle isCheck full differs known dropped =>
    have appended := append_spec host { middle with store := { middle.store with
      uidvldUp, uidvldDn := (uidvldUp + now) % 2 ^ 32 } }
      (.uidvlds uidvldUp ((uidvldUp + now) % 2 ^ 32)) []
    have cache : middle.disk.cache = [] := by rw [dropped.disk]
    have drops : box.drops operation = true := by
      rw [isCheck]
      simp [drops, differs, known]
    refine ⟨fun disk mem => ⟨(appended.soundLogs ?_ (dropped.trail_sound sound)).2 disk mem,
      fun interrupts => lasting.droppedDisks _ _ sound holds dropped
        (renews uidvldUp now isCheck differs) (interrupts drops) disk mem⟩, fun safe => ?_⟩
    · show SoundLog (middle.disk.cache ++ _)
      rw [cache]
      exact soundLog_uidvlds _ _
    · have free : box.holdsOld = false := by
        unfold Maildir.dangles at safe
        rw [isCheck] at safe
        simpa [dangles, differs, known, full] using safe
      exact ⟨(dropped.sound sound.log sound.trail free).setUidvlds _ _,
        dropped.locals.setUidvlds _ _, lasting.dropped _ _ sound holds dropped known full free
          (renews uidvldUp now isCheck differs)⟩

/-- An action writes only good disks, and leaves a good mailbox. -/
theorem act (sound : state.Sound) (holds : state.Holds lasting) {action : Action}
    (offers : state.OffersAction action) (permits : state.Permits lasting action) :
    (∀ disk ∈ (state.act host action).2,
      SoundLog disk.cache ∧ (state.Interrupts lasting action → lasting.onDisk disk)) ∧
      (state.dangles action = false →
        (state.act host action).1.Sound ∧ (state.act host action).1.Holds lasting) := by
  have nothing : ∀ disk ∈ ([] : List Disk),
      SoundLog disk.cache ∧ (state.Interrupts lasting action → lasting.onDisk disk) :=
    fun disk mem => absurd mem not_mem_nil
  cases state with
  | closed disk =>
    cases action with
    | operation operation | close rmOnClose => exact ⟨nothing, fun _ => ⟨sound, holds⟩⟩
    | init lite =>
      obtain ⟨read, describes, loadedSound, opened⟩ := init_leaves host (lasting.openingPlain disk) sound lite
        (permits.imp_right And.left) (permits.imp_right And.right)
      have early := lasting.loaded sound holds describes
      unfold Maildir.act
      dsimp only
      cases outcome : init host disk lite with
      | ok box =>
        obtain ⟨populated, evolves, noDns, filed, rfl⟩ := opened.of_ok outcome
        obtain ⟨populatedSound, populatedEarly⟩ := evolves.keepsSound lasting.opens loadedSound early
        have isLite : populated.store.lite = lite := by
          rw [evolves.lite]
          show (initial disk lite).store.lite = lite
          rw [(initial_spec disk lite).store]
        have boxSound := populatedSound.detectHi
        have boxHolds := lasting.opened populatedSound populatedEarly noDns fun full =>
          filed (isLite.symm.trans full)
        refine ⟨fun written mem => ⟨boxSound.trail written mem, fun _ => ?_⟩, fun _ => ⟨⟨boxSound.settled,
          ⟨(Locals.detectHi populated).msg, (Locals.detectHi populated).expunge⟩, rfl⟩,
          lasting.settled boxSound boxHolds⟩⟩
        exact lasting.alwaysDisks boxSound boxHolds written (.tail _ mem)
      | error failure =>
        obtain ⟨failureSound, failureEarly⟩ :=
          (opened.of_error outcome).keepsSound lasting.opens loadedSound early
        have disks := lasting.earlyDisks failureSound failureEarly
        exact ⟨fun written mem =>
          ⟨failureSound.trail written mem, fun _ => disks written (.tail _ mem)⟩,
          fun _ => ⟨failureSound.log, disks _ mem_cons_self⟩⟩
  | opened box =>
    cases action with
    | init lite => exact ⟨nothing, fun _ => ⟨sound, holds⟩⟩
    | close rmOnClose =>
      obtain ⟨last, next, evolves, removed, result⟩ :=
        Maildir.act_close host lasting.runningWorking sound.1 rmOnClose
      obtain ⟨lastSound, lastHolds⟩ := lasting.evolves evolves sound.1 holds
      rw [result]
      rcases removed with rfl | ⟨removes, assigned, removed⟩
      · have disks := lasting.alwaysDisks lastSound lastHolds
        exact ⟨fun disk mem =>
          ⟨lastSound.trail disk mem, fun _ => disks disk (.tail _ mem)⟩,
          fun _ => ⟨lastSound.log, disks _ mem_cons_self⟩⟩
      · have disks := lasting.removed lastSound lastHolds removed (by
          rw [assigned]
          exact permits removes)
        refine ⟨fun disk mem => ⟨?_, fun _ => disks disk (.tail _ mem)⟩,
          fun _ => ⟨?_, disks _ mem_cons_self⟩⟩
        · rcases removed.trail disk mem with old | ⟨left, equal⟩
          · exact lastSound.trail disk old
          · rw [equal]
            exact SoundLog.nil
        · show SoundLog next.disk.cache
          rw [removed.disk]
          exact SoundLog.nil
    | operation operation =>
      obtain ⟨next, leaves, result⟩ := Maildir.act_operation host lasting.runningPlain
        lasting.runningWorking lasting.runningFinalize sound offers permits.1
      obtain ⟨disks, safe⟩ := lasting.leaves sound.1 sound.2.1 holds permits.2 leaves
      rcases result with stays | ⟨evolves, closes⟩
      · rw [stays]
        refine ⟨disks, fun noDangle => ?_⟩
        obtain ⟨nextSound, nextLocals, nextHolds⟩ := safe noDangle
        exact ⟨⟨nextSound.settled, ⟨nextLocals.msg, nextLocals.expunge⟩, rfl⟩, nextHolds⟩
      · obtain ⟨nextSound, nextHolds⟩ := lasting.evolves evolves sound.1 holds
        rw [closes]
        exact ⟨disks, fun _ =>
          ⟨nextSound.log, lasting.alwaysDisks nextSound nextHolds _ mem_cons_self⟩⟩

/-- Every event leaves a good mailbox. -/
theorem step (sound : state.Sound) (holds : state.Holds lasting) {event : MaildirEvent}
    (offers : state.Offers event) (permits : state.Permits lasting event.action)
    (interrupts : ∀ action writes, event = .crash action writes → state.Interrupts lasting action) :
    Outcome.Sat (state.step host event) (fun next => next.Sound ∧ next.Holds lasting)
      (fun _ => True) := by
  obtain ⟨disks, safe⟩ := lasting.act sound holds offers permits
  cases event with
  | act action =>
    unfold Maildir.step
    dsimp only
    split
    · trivial
    · rename_i noDangle
      exact safe (Bool.eq_false_iff.mpr noDangle)
  | crash action writes =>
    have here : SoundLog state.disk.cache ∧ lasting.onDisk state.disk := by
      cases state with
      | closed disk => exact ⟨sound, holds⟩
      | opened box => exact ⟨sound.1.log, lasting.alwaysDisks sound.1 holds _ mem_cons_self⟩
    show SoundLog ((state.disk :: (state.act host action).2).getD writes state.disk).cache ∧
      lasting.onDisk ((state.disk :: (state.act host action).2).getD writes state.disk)
    rw [getD_eq_getElem?_getD]
    cases found : (state.disk :: (state.act host action).2)[writes]? with
    | none => exact here
    | some disk =>
      rcases mem_cons.mp (mem_of_getElem? found) with before | written
      · show SoundLog disk.cache ∧ lasting.onDisk disk
        rw [before]
        exact here
      · exact ⟨(disks disk written).1, (disks disk written).2 (interrupts action writes rfl)⟩

end

/-- Soundness alone. -/
def soundness (host : Host) : Lasting host where
  early _ _ := True
  always _ := True
  onDisk _ := True
  opening _ _ := True
  running _ := True
  wipes _ := True
  renews _ _ := True
  openingPlain _ := trivial
  runningPlain := trivial
  runningWorking := trivial
  runningFinalize := trivial
  opens _ _ _ _ := trivial
  runs _ _ _ _ := trivial
  earlyDisks _ _ _ _ := trivial
  alwaysDisks _ _ _ _ := trivial
  loaded _ _ _ := trivial
  opened _ _ _ _ := trivial
  settled _ _ := trivial
  noted _ _ _ _ _ _ := trivial
  dropped _ _ _ _ _ _ _ _ _ := trivial
  droppedDisks _ _ _ _ _ _ _ _ _ := trivial
  removed _ _ _ _ _ _ := trivial

end Lasting

namespace Maildir

variable {host : Host} {state : Maildir}

/-- Every event leaves a sound mailbox. -/
theorem step_sound (sound : state.Sound) {event : MaildirEvent} (offers : state.Offers event) :
    Outcome.Sat (state.step host event) Maildir.Sound (fun _ => True) := by
  have holds : state.Holds (Lasting.soundness host) := by
    cases state <;> trivial
  have permits : state.Permits (Lasting.soundness host) event.action := by
    unfold Permits
    split
    · exact .inr ⟨.inl fun _ => trivial, .inl trivial⟩
    · exact ⟨⟨fun _ _ => trivial, fun _ _ _ => trivial⟩, fun _ _ _ _ => trivial⟩
    · exact fun _ => trivial
    · trivial
  have interrupts : ∀ action, state.Interrupts (Lasting.soundness host) action := by
    intro action
    unfold Interrupts
    split
    · exact fun _ => trivial
    · trivial
  exact ((Lasting.soundness host).step sound holds offers permits fun action _ _ =>
    interrupts action).mono fun _ both => both.1

/-- A mailbox is sound at any time of any run. -/
theorem run_sound {events : List MaildirEvent}
    (guarded : Run.Guarded (step host) Offers (.closed {}) events) :
    Outcome.Sat (Run.run (step host) (.closed {}) events) Maildir.Sound (fun _ => True) :=
  guarded.sat (fun _ _ sound offers => step_sound sound offers) SoundLog.nil

end Maildir

end Splintermail
