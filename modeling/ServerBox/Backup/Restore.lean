import ServerBox.Backup.RestoredIds

/-!
# A backup restored

`BackupV2Restore.restoreStores` of `lib/data/model/app/bak/backup_restore.dart`: the sections of a
backup merged into the stores one after another, with the references between them looked up before.
What a deletion takes along in another table is not followed.
-/

namespace ServerBox.Store.EntityStore

open ServerBox.Std

variable {Value Body Name : Type} [DecidableEq Name]

/-- The records that `merge` writes. -/
def written (kind : StoreKind Value Body Name) (force : Bool) (now : Int)
    (store : EntityStore Value) (backup : Backup Body) : List (Item Value) :=
  ((mergeIds backup store.timestamps).foldl
    (mergeId kind force now backup store.timestamps) { store }).written

/-- A record of a backup as `merge` reads it. -/
def readAs (kind : StoreKind Value Body Name) (force : Bool) (store : EntityStore Value)
    (key : RecordId) (raw : RawRecord Body) : Option (Item Value) :=
  (kind.fromJson { raw with id := some (raw.id.getD key) }).map fun item =>
    if force || raw.id.isNone then kind.reconcile store.rows item else item

/-- What `merge` has written so far was read from the backup. -/
structure WritesAsRead (kind : StoreKind Value Body Name) (force : Bool)
    (store : EntityStore Value) (backup : Backup Body) (merging : Merging Value) : Prop where
  cached : merging.cached = store.rows
  read : ∀ item ∈ merging.written, ∃ key raw, backup.records.lookup key = some (some raw) ∧
    readAs kind force store key raw = some item

variable {kind : StoreKind Value Body Name} {force : Bool} {now : Int}
  {store : EntityStore Value} {backup : Backup Body} {merging : Merging Value}

theorem writesAsRead_mergeRecord (before : WritesAsRead kind force store backup merging)
    {key : RecordId} {raw : RawRecord Body} (found : backup.records.lookup key = some (some raw))
    (at_ : Int) :
    WritesAsRead kind force store backup
      (mergeRecord kind force merging key (some raw) at_) := by
  unfold mergeRecord
  dsimp only
  split
  next => exact before
  next item decoded =>
      have read : readAs kind force store key raw =
          some (if force || raw.id.isNone then kind.reconcile merging.cached item else item) := by
        rw [readAs, decoded, before.cached]
        rfl
      generalize (if force || raw.id.isNone then kind.reconcile merging.cached item else item) =
        resolved at read
      split
      next => exact before
      next =>
          refine ⟨before.cached, fun other isWritten => ?_⟩
          rcases List.mem_append.mp isWritten with earlier | new
          · exact before.read other earlier
          · rw [List.mem_singleton.mp new]
            exact ⟨key, raw, found, read⟩

theorem writesAsRead_mergeId {current : Table RecordId Int}
    (before : WritesAsRead kind force store backup merging) (key : RecordId) :
    WritesAsRead kind force store backup
      (mergeId kind force now backup current merging key) := by
  unfold mergeId
  dsimp only
  split
  next => exact before
  next =>
      split
      next raw found =>
          cases raw with
          | none => exact before
          | some raw => exact writesAsRead_mergeRecord before found _
      next =>
          split
          next => exact before
          next => exact ⟨before.cached, before.read⟩

/-- What `merge` writes was read from the backup. -/
theorem of_mem_written {item : Item Value}
    (isWritten : item ∈ written kind force now store backup) :
    ∃ key raw, backup.records.lookup key = some (some raw) ∧
      readAs kind force store key raw = some item := by
  have start : WritesAsRead kind force store backup { store } := ⟨rfl, nofun⟩
  have run (keys : List RecordId) {merging : Merging Value}
      (before : WritesAsRead kind force store backup merging) :
      WritesAsRead kind force store backup
        (keys.foldl (mergeId kind force now backup store.timestamps) merging) := by
    induction keys generalizing merging with
    | nil => exact before
    | cons key keys inductionHypothesis =>
        exact inductionHypothesis (writesAsRead_mergeId before key)
  exact (run _ start).read item isWritten

end ServerBox.Store.EntityStore

namespace ServerBox.Backup

open ServerBox.Std ServerBox.Store

/-- `BackupV2`, as far as it is restored into the stores of records. A container or PVE entry is
none where it does not decode, and some none where it says that there is nothing. -/
structure BackupV2 (Rest ChildRest Container Pve : Type) where
  keys : Store.Backup PrivateKeyBody := {}
  bmcCredentials : Store.Backup BmcCredentialBody := {}
  spis : Section (ServerBody Rest) := ∅
  spisTimestamps : ServerTimestamps := .map ∅
  snippets : Store.Backup SnippetBody := {}
  portForwards : Store.Backup (ChildBody ChildRest) := {}
  remoteDesktopProfiles : Store.Backup (ChildBody ChildRest) := {}
  container : Table RecordId (Option (Option Container)) := ∅
  pve : Table RecordId (Option (Option Pve)) := ∅
  carriesPveSection : Bool := true

/-- The stores that a backup is restored into. -/
structure Stores (Rest ChildRest Container Pve : Type) where
  key : EntityStore PrivateKeyInfo := {}
  bmcCredential : EntityStore BmcCredential := {}
  server : EntityStore (Spi Rest) := {}
  snippet : EntityStore Snippet := {}
  portForward : EntityStore (Child ChildRest) := {}
  remoteDesktop : EntityStore (Child ChildRest) := {}
  container : Table RecordId Container := ∅
  pve : Table RecordId Pve := ∅

/-- `ContainerStore.restoreOne` and `PveStore.restoreOne`. -/
def restoreOne {Spi Row : Type} (servers : EntityStore Spi) (rows : Table RecordId Row)
    (serverId : RecordId) : Option (Option Row) → Table RecordId Row
  | none => rows
  | some value =>
      if serverId ∉ servers.rows then rows
      else
        match value with
        | none => rows.erase serverId
        | some row => rows.insert serverId row

variable {Rest ChildRest Container Pve DesktopName : Type} [DecidableEq DesktopName]

/-- `_pveToRestore`: none leaves the row as it is. -/
def pveToRestore (file : BackupV2 Rest ChildRest Container Pve) (force : Bool)
    (restored : Table RecordId (Option (Option Pve))) (serverId : RecordId) : Option (Option Pve) :=
  if file.carriesPveSection then (restored.lookup serverId).getD (some none)
  else if force then some none else none

/-- A restore: the file, the stores of this device, whether the user started it, and the time. -/
structure Restore (Rest ChildRest Container Pve : Type) where
  file : BackupV2 Rest ChildRest Container Pve
  stores : Stores Rest ChildRest Container Pve
  force : Bool
  now : Int

namespace Restore

variable (restore : Restore Rest ChildRest Container Pve)

/-- `keyIds`. -/
def keyIds : Table RecordId RecordId :=
  privateKeys.restoredIds restore.stores.key restore.file.keys.records

/-- `credIds`. -/
def credIds : Table RecordId RecordId :=
  bmcCredentials.restoredIds restore.stores.bmcCredential restore.file.bmcCredentials.records

/-- `_restoredServerGraph`; none where it throws. -/
def graph : Option (ServerGraph Rest) :=
  restoredServerGraph restore.keyIds restore.credIds restore.stores.server restore.file.spis
    restore.file.spisTimestamps

/-- The private keys once theirs are merged. -/
def keys : EntityStore PrivateKeyInfo :=
  (EntityStore.merge privateKeys.storeKind restore.force restore.now restore.stores.key
    restore.file.keys).1

/-- The BMC accounts once theirs are merged. -/
def creds : EntityStore BmcCredential :=
  (EntityStore.merge bmcCredentials.storeKind restore.force restore.now
    restore.stores.bmcCredential restore.file.bmcCredentials).1

/-- The servers' section as it is merged. -/
def serverBackup (graph : ServerGraph Rest) : Store.Backup (ServerBody Rest) :=
  ⟨graph.servers, graph.timestamps.read⟩

/-- The snippets' section as it is merged. -/
def snippetBackup (graph : ServerGraph Rest) : Store.Backup SnippetBody :=
  ⟨Section.mapBodies (snippetWithRestoredServerIds graph.serverIds)
    restore.file.snippets.records,
    restore.file.snippets.timestamps⟩

/-- The port forwards' or the remote desktops' section as it is merged. -/
def childBackup (graph : ServerGraph Rest) (section_ : Store.Backup (ChildBody ChildRest)) :
    Store.Backup (ChildBody ChildRest) :=
  ⟨Section.mapBodies (recordWithRestoredServerId graph.serverIds) section_.records,
    section_.timestamps⟩

/-- The servers once theirs are merged, and the ids that were written or deleted. -/
def servers (graph : ServerGraph Rest) : EntityStore (Spi Rest) × List RecordId :=
  EntityStore.merge (Backup.servers restore.keys restore.creds) restore.force restore.now
    restore.stores.server (serverBackup graph)

/-- `restoreStores`; none where it throws. `desktopName` are the columns of a remote desktop that
are unique together. -/
def restoreStores (desktopName : Child ChildRest → Option DesktopName) :
    Option (Stores Rest ChildRest Container Pve) :=
  restore.graph.map fun graph =>
    let (server, appliedServerIds) := restore.servers graph
    let container := renameKeys graph.serverIds restore.file.container
    let pve := renameKeys graph.serverIds restore.file.pve
    let containerIds := graph.servers.keys ++ container.keys.filter (· ∉ graph.servers)
    let pveIds := containerIds ++ pve.keys.filter (· ∉ containerIds)
    { key := restore.keys
      bmcCredential := restore.creds
      server
      snippet := (EntityStore.merge snippets.storeKind restore.force restore.now
        restore.stores.snippet (restore.snippetBackup graph)).1
      portForward := (EntityStore.merge (children (fun _ => (none : Option Empty)) server)
        restore.force restore.now restore.stores.portForward
        (childBackup graph restore.file.portForwards)).1
      remoteDesktop := (EntityStore.merge (children desktopName server) restore.force restore.now
        restore.stores.remoteDesktop (childBackup graph restore.file.remoteDesktopProfiles)).1
      container := (containerIds.filter (· ∈ appliedServerIds)).foldl (fun rows serverId =>
        restoreOne server rows serverId ((container.lookup serverId).getD (some none)))
        restore.stores.container
      pve := (pveIds.filter (· ∈ appliedServerIds)).foldl (fun rows serverId =>
        restoreOne server rows serverId
          (pveToRestore restore.file restore.force pve serverId)) restore.stores.pve }

end Restore

end ServerBox.Backup
