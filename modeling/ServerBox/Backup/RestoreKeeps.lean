import ServerBox.Backup.RestoreGraph
import ServerBox.Backup.RestoreNames

/-!
# References through a restore

What a record of a backup points at, and what it is itself restored as, are decided apart.
`Restore.keeps_iff` says when the two agree for every record of a backup, and that nothing else is
written.
-/

namespace ServerBox.Backup

open ServerBox.Std ServerBox.Store

variable {Rest ChildRest Container Pve DesktopName : Type}

/-- A server as a backup has it, and as it is merged. -/
def Restore.Merges (restore : Restore Rest ChildRest Container Pve) (graph : ServerGraph Rest)
    (key : RecordId) (spi merged : Spi Rest) : Prop :=
  ∃ raw record, restore.file.spis.lookup key = some (some raw) ∧ Spi.decode raw.body = some spi ∧
    graph.servers.lookup (restoredServerId restore.stores.server key raw) = some (some record) ∧
    Spi.decode record.body = some merged

/-- Whether a reference of a record that is merged names what the server it names in the backup is
restored as. -/
def Restore.Follows (restore : Restore Rest ChildRest Container Pve) (id merged : RecordId) :
    Prop :=
  ∀ key raw, NamesServer restore.file.spis id key raw →
    merged = restoredServerId restore.stores.server key raw

/-- Whether the rows of a table that is merged stand under what the servers they name in the backup
are restored as. -/
def Restore.FollowsKeys {Row : Type} (restore : Restore Rest ChildRest Container Pve)
    (table merged : Table RecordId Row) : Prop :=
  ∀ id ∈ table, ∀ key raw, NamesServer restore.file.spis id key raw →
    restoredServerId restore.stores.server key raw ∈ merged

/-- Whether the port forwards or remote desktops that are merged follow the servers. -/
def Restore.FollowsChildren (restore : Restore Rest ChildRest Container Pve)
    (section_ merged : Section (ChildBody ChildRest)) : Prop :=
  ∀ key raw serverId, section_.lookup key = some (some raw) → raw.body.serverId = some serverId →
    ∃ serverId', merged.lookup key =
      some (some ⟨raw.id, { raw.body with serverId := some serverId' }⟩) ∧
      restore.Follows serverId serverId'

/-- Whether no two records of a section have one id. -/
def OwnRows {Body : Type} (section_ : Section Body) : Prop :=
  ∀ key raw other another, section_.lookup key = some (some raw) →
    section_.lookup other = some (some another) → ownId key raw = ownId other another → key = other

/-- Whether a restore keeps the references: each that a record is merged with names what the record
that it names in the backup is restored as, and no two records are restored as one. -/
structure Restore.Keeps (restore : Restore Rest ChildRest Container Pve)
    (graph : ServerGraph Rest) : Prop where
  keyIds : ∀ key spi merged, restore.Merges graph key spi merged → ∀ id ∈ spi.keyId,
    ∀ named, Names restore.file.keys.records id named → ∀ restored,
      privateKeys.restoredAs restore.force restore.stores.key restore.file.keys.records named =
        some restored → merged.keyId = some restored
  credIds : ∀ key spi merged, restore.Merges graph key spi merged → ∀ id ∈ spi.credId,
    ∀ named, Names restore.file.bmcCredentials.records id named → ∀ restored,
      bmcCredentials.restoredAs restore.force restore.stores.bmcCredential
        restore.file.bmcCredentials.records named = some restored → merged.credId = some restored
  jumps : ∀ key spi merged, restore.Merges graph key spi merged →
    List.Forall₂ restore.Follows spi.jumpRefs merged.jumpRefs
  autoRunOn : ∀ key raw, restore.file.snippets.records.lookup key = some (some raw) →
    ∃ targets, (restore.snippetBackup graph).records.lookup key =
        some (some ⟨raw.id, { raw.body with autoRunOn := targets }⟩) ∧
      List.Forall₂ restore.Follows (raw.body.autoRunOn.getD []) (targets.getD [])
  portForwards : restore.FollowsChildren restore.file.portForwards.records
    (childBackup graph restore.file.portForwards).records
  remoteDesktops : restore.FollowsChildren restore.file.remoteDesktopProfiles.records
    (childBackup graph restore.file.remoteDesktopProfiles).records
  container : restore.FollowsKeys restore.file.container
    (renameKeys graph.serverIds restore.file.container)
  pve : restore.FollowsKeys restore.file.pve (renameKeys graph.serverIds restore.file.pve)
  timestamps : restore.FollowsKeys restore.file.spisTimestamps.read graph.timestamps.read
  keyRows : ∀ key other restored,
    privateKeys.restoredAs restore.force restore.stores.key restore.file.keys.records key =
      some restored →
    privateKeys.restoredAs restore.force restore.stores.key restore.file.keys.records other =
      some restored → key = other
  credRows : ∀ key other restored,
    bmcCredentials.restoredAs restore.force restore.stores.bmcCredential
      restore.file.bmcCredentials.records key = some restored →
    bmcCredentials.restoredAs restore.force restore.stores.bmcCredential
      restore.file.bmcCredentials.records other = some restored → key = other
  serverRows : ∀ key raw other another, restore.file.spis.lookup key = some (some raw) →
    restore.file.spis.lookup other = some (some another) →
    restoredServerId restore.stores.server key raw =
      restoredServerId restore.stores.server other another → key = other
  snippetRows : ∀ key other restored,
    snippets.restoredAs restore.force restore.stores.snippet restore.file.snippets.records key =
      some restored →
    snippets.restoredAs restore.force restore.stores.snippet restore.file.snippets.records other =
      some restored → key = other
  portForwardRows : OwnRows restore.file.portForwards.records
  remoteDesktopRows : OwnRows restore.file.remoteDesktopProfiles.records

/-- What a restore writes: records of the backup only, under what they are restored as, with the
references that they are merged with. -/
structure Restore.WritesOnly [DecidableEq DesktopName]
    (restore : Restore Rest ChildRest Container Pve) (graph : ServerGraph Rest)
    (desktopName : Child ChildRest → Option DesktopName) : Prop where
  keys : ∀ item ∈ EntityStore.written privateKeys.storeKind restore.force restore.now
    restore.stores.key restore.file.keys, ∃ key, privateKeys.restoredAs restore.force
      restore.stores.key restore.file.keys.records key = some item.id
  creds : ∀ item ∈ EntityStore.written bmcCredentials.storeKind restore.force restore.now
    restore.stores.bmcCredential restore.file.bmcCredentials,
    ∃ key, bmcCredentials.restoredAs restore.force restore.stores.bmcCredential
      restore.file.bmcCredentials.records key = some item.id
  servers : ∀ item ∈ EntityStore.written (Backup.servers restore.keys restore.creds) restore.force
    restore.now restore.stores.server (Restore.serverBackup graph),
    ∃ key raw spi, restore.file.spis.lookup key = some (some raw) ∧
      item.id = restoredServerId restore.stores.server key raw ∧
      restore.Merges graph key spi item.value ∧ item.links = item.value.resolvedJumpIds
  snippets : ∀ item ∈ EntityStore.written snippets.storeKind restore.force restore.now
    restore.stores.snippet (restore.snippetBackup graph),
    ∃ key record, (restore.snippetBackup graph).records.lookup key = some (some record) ∧
      snippets.restoredAs restore.force restore.stores.snippet restore.file.snippets.records key =
        some item.id ∧ snippets.decode (ownId key record) record.body = some item.value
  portForwards : ∀ item ∈ EntityStore.written
    (children (fun _ => (none : Option Empty)) (restore.servers graph).1) restore.force restore.now
      restore.stores.portForward (childBackup graph restore.file.portForwards),
    ∃ key record, (childBackup graph restore.file.portForwards).records.lookup key =
      some (some record) ∧ item.id = ownId key record ∧
      record.body.serverId = some item.value.serverId
  remoteDesktops : ∀ item ∈ EntityStore.written (children desktopName (restore.servers graph).1)
      restore.force restore.now restore.stores.remoteDesktop
      (childBackup graph restore.file.remoteDesktopProfiles),
    ∃ key record, (childBackup graph restore.file.remoteDesktopProfiles).records.lookup key =
      some (some record) ∧ item.id = ownId key record ∧
      record.body.serverId = some item.value.serverId

/-- When it does: the keys and accounts that servers point at agree, a server with its SSH
configuration at its top has no jump host restored under another id, the servers' times are no
text that lacks the id of one restored, and no key, account or snippet is taken by name for what
another is restored as. -/
structure Restore.Agrees (restore : Restore Rest ChildRest Container Pve) : Prop where
  keyIds : ∀ key raw spi, restore.file.spis.lookup key = some (some raw) →
    Spi.decode raw.body = some spi → ∀ id ∈ spi.keyId,
      privateKeys.AgreesOn restore.force restore.stores.key restore.file.keys.records id
  credIds : ∀ key raw spi, restore.file.spis.lookup key = some (some raw) →
    Spi.decode raw.body = some spi → ∀ id ∈ spi.credId,
      bmcCredentials.AgreesOn restore.force restore.stores.bmcCredential
        restore.file.bmcCredentials.records id
  flatJumps : ∀ key raw spi ssh, restore.file.spis.lookup key = some (some raw) →
    Spi.decode raw.body = some spi → raw.body.layout = .flat ssh → ∀ id ∈ spi.jumpRefs,
      restore.Follows id id
  textTimestamps : ∀ timestamps, restore.file.spisTimestamps = .text timestamps →
    restore.FollowsKeys timestamps timestamps
  keyRows : privateKeys.TakesApart restore.force restore.stores.key restore.file.keys.records
  credRows : bmcCredentials.TakesApart restore.force restore.stores.bmcCredential
    restore.file.bmcCredentials.records
  snippetRows : snippets.TakesApart restore.force restore.stores.snippet
    restore.file.snippets.records

/-- Whether the ids inside a backup are unique, section by section. -/
structure BackupV2.UniqueIds (file : BackupV2 Rest ChildRest Container Pve) : Prop where
  keys : Backup.UniqueIds file.keys.records
  creds : Backup.UniqueIds file.bmcCredentials.records
  snippets : Backup.UniqueIds file.snippets.records
  portForwards : Backup.UniqueIds file.portForwards.records
  remoteDesktops : Backup.UniqueIds file.remoteDesktopProfiles.records

/-! ### Records that are merged -/

section Merged

variable {restore : Restore Rest ChildRest Container Pve} {graph : ServerGraph Rest}
  {serverIds : Table RecordId RecordId} {key : RecordId} {spi merged : Spi Rest}

theorem ownRows_of_uniqueIds {Body : Type} {section_ : Section Body}
    (unique : UniqueIds section_) : OwnRows section_ :=
  fun key raw other another found foundOther same =>
    unique _ key other ⟨raw, found, .inr rfl⟩ ⟨another, foundOther, .inr same⟩

/-- A server is merged as it is in the backup, with its references looked up. -/
theorem merges_iff (built : restore.graph = some graph) :
    restore.Merges graph key spi merged ↔ ∃ raw, restore.file.spis.lookup key = some (some raw) ∧
      Spi.decode raw.body = some spi ∧
      Spi.decode (serverWithRestoredIds restore.keyIds restore.credIds graph.serverIds raw.body) =
        some merged := by
  constructor
  · rintro ⟨raw, record, found, decodes, isRecord, isMerged⟩
    rw [lookup_servers built found] at isRecord
    obtain rfl := Option.some.inj (Option.some.inj isRecord)
    exact ⟨raw, found, decodes, isMerged⟩
  · rintro ⟨raw, found, decodes, isMerged⟩
    exact ⟨raw, _, found, decodes, lookup_servers built found, isMerged⟩

/-- What looking the references up does to a server that decodes. -/
theorem decode_serverWithRestoredIds {keyIds credIds : Table RecordId RecordId}
    {body : ServerBody Rest} (decodes : Spi.decode body = some spi) :
    ∃ merged, Spi.decode (serverWithRestoredIds keyIds credIds serverIds body) = some merged ∧
      merged.name = spi.name ∧ merged.keyId = spi.keyId.map (renamed keyIds) ∧
      merged.credId = spi.credId.map (renamed credIds) ∧
      ((∀ ssh, body.layout ≠ .flat ssh) → merged.jumpRefs = spi.jumpRefs.map (renamed serverIds)) ∧
      (∀ ssh, body.layout = .flat ssh → merged.jumpRefs = spi.jumpRefs) := by
  obtain ⟨name, isName, decodes⟩ := Option.bind_eq_some_iff.mp decodes
  obtain ⟨rest, isRest, rfl⟩ := Option.map_eq_some_iff.mp decodes
  refine ⟨⟨name, (serverWithRestoredIds keyIds credIds serverIds body).layout.ssh,
    body.credId.map (renamed credIds), rest⟩, ?_, rfl, ?_, rfl, ?_, ?_⟩
  · rw [Spi.decode]
    change (body.name.bind fun name => body.rest.map fun rest => _) = _
    rw [isName, Option.bind_some, isRest, Option.map_some]
    rfl
  · cases isLayout : body.layout <;>
      simp [Spi.keyId, serverWithRestoredIds, isLayout, Layout.ssh, sshWithRestoredIds,
        sshWithRestoredKeyId]
  · intro notFlat
    cases isLayout : body.layout with
    | nested ssh =>
        cases jumpIds : ssh.jumpIds <;> cases jumpId : ssh.jumpId <;>
          simp [Spi.jumpRefs, serverWithRestoredIds, isLayout, Layout.ssh, sshWithRestoredIds,
            sshWithRestoredKeyId, jumpIds, jumpId]
    | flat ssh => exact absurd isLayout (notFlat ssh)
    | bare => simp [Spi.jumpRefs, serverWithRestoredIds, isLayout, Layout.ssh]
  · intro ssh isFlat
    simp [Spi.jumpRefs, serverWithRestoredIds, isFlat, Layout.ssh, sshWithRestoredKeyId]

/-- References looked up follow the servers. -/
theorem follows_renamed (built : restore.graph = some graph) (ids : List RecordId) :
    List.Forall₂ restore.Follows ids (ids.map (renamed graph.serverIds)) := by
  rw [List.forall₂_map_right_iff, List.forall₂_same]
  exact fun id _ key raw names => renamed_serverIds built names

theorem mem_renameKeys {Row : Type} {table : Table RecordId Row} {id : RecordId}
    (isKey : id ∈ table) : renamed serverIds id ∈ renameKeys serverIds table := by
  have kept (entries : List ((_ : RecordId) × Row)) {out : Table RecordId Row}
      (isKey : renamed serverIds id ∈ out ∨ id ∈ entries.keys) :
      renamed serverIds id ∈ entries.foldl
        (fun out entry => out.insert (renamed serverIds entry.1) entry.2) out := by
    induction entries generalizing out with
    | nil => exact isKey.resolve_right List.not_mem_nil
    | cons entry entries inductionHypothesis =>
        refine inductionHypothesis ?_
        rw [AList.mem_insert]
        rcases isKey with before | isEntry
        · exact .inl (.inr before)
        · rcases List.mem_cons.mp isEntry with rfl | later
          · exact .inl (.inl rfl)
          · exact .inr later
  exact kept _ (.inr (AList.mem_keys.mp isKey))

theorem followsKeys_renameKeys (built : restore.graph = some graph) {Row : Type}
    (table : Table RecordId Row) :
    restore.FollowsKeys table (renameKeys graph.serverIds table) := by
  intro id isKey key raw names
  rw [← renamed_serverIds built names]
  exact mem_renameKeys isKey

theorem followsChildren (built : restore.graph = some graph)
    (section_ : Store.Backup (ChildBody ChildRest)) :
    restore.FollowsChildren section_.records (Restore.childBackup graph section_).records := by
  intro key raw serverId found isServer
  refine ⟨renamed graph.serverIds serverId, ?_, fun named another names =>
    renamed_serverIds built names⟩
  rw [Restore.childBackup, Section.mapBodies, Table.lookup_mapRows, found, Option.map_some,
    Option.map_some, recordWithRestoredServerId, isServer, Option.map_some]

theorem of_mem_written_children {Name Server : Type} [DecidableEq Name]
    {uniqueName : Child ChildRest → Option Name} {servers : EntityStore Server} {force : Bool}
    {now : Int} {store : EntityStore (Child ChildRest)}
    {backup : Store.Backup (ChildBody ChildRest)} {item : Item (Child ChildRest)}
    (isWritten : item ∈ EntityStore.written (children uniqueName servers) force now store backup) :
    ∃ key record, backup.records.lookup key = some (some record) ∧ item.id = ownId key record ∧
      record.body.serverId = some item.value.serverId := by
  obtain ⟨key, record, found, read⟩ := EntityStore.of_mem_written isWritten
  refine ⟨key, record, found, ?_⟩
  obtain ⟨first, isFirst, rfl⟩ := Option.map_eq_some_iff.mp read
  obtain ⟨serverId, isServer, isFirst⟩ := Option.bind_eq_some_iff.mp isFirst
  obtain ⟨rest, -, rfl⟩ := Option.map_eq_some_iff.mp isFirst
  have same : (if force || record.id.isNone then
      (children uniqueName servers).reconcile store.rows
        ⟨record.id.getD key, ⟨serverId, rest⟩, []⟩
      else ⟨record.id.getD key, ⟨serverId, rest⟩, []⟩) =
      ⟨record.id.getD key, ⟨serverId, rest⟩, []⟩ := ite_self _
  rw [same]
  exact ⟨rfl, isServer⟩

/-- A server that is written stands under the id that the graph gave it. -/
theorem of_mem_written_servers (built : restore.graph = some graph) {item : Item (Spi Rest)}
    (isWritten : item ∈ EntityStore.written (Backup.servers restore.keys restore.creds)
      restore.force restore.now restore.stores.server (Restore.serverBackup graph)) :
    ∃ key raw spi, restore.file.spis.lookup key = some (some raw) ∧
      item.id = restoredServerId restore.stores.server key raw ∧
      restore.Merges graph key spi item.value ∧ item.links = item.value.resolvedJumpIds := by
  obtain ⟨restored, record, found, read⟩ := EntityStore.of_mem_written isWritten
  obtain ⟨key, raw, isRaw, isRestored, rfl⟩ := of_lookup_servers built found
  obtain ⟨first, isFirst, isItem⟩ := Option.map_eq_some_iff.mp read
  obtain ⟨merged, isMerged, rfl⟩ := Option.map_eq_some_iff.mp isFirst
  have named : raw.body.name = some merged.name := by
    obtain ⟨name, isName, isMerged⟩ := Option.bind_eq_some_iff.mp isMerged
    obtain ⟨rest, -, rfl⟩ := Option.map_eq_some_iff.mp isMerged
    exact isName
  have reconciled : (Backup.servers restore.keys restore.creds).reconcile restore.stores.server.rows
      ⟨restored, merged, merged.resolvedJumpIds⟩ = ⟨restored, merged, merged.resolvedJumpIds⟩ := by
    rw [isRestored]
    exact reconcileServer_eq named
  have same : item = ⟨restored, merged, merged.resolvedJumpIds⟩ := by
    rw [← isItem]
    split
    next => exact reconciled
    next => rfl
  subst same
  have decodes : (Spi.decode raw.body).isSome := by
    obtain ⟨name, isName, isMerged⟩ := Option.bind_eq_some_iff.mp isMerged
    obtain ⟨rest, isRest, -⟩ := Option.map_eq_some_iff.mp isMerged
    have isName' : raw.body.name = some name := isName
    have isRest' : raw.body.rest = some rest := isRest
    rw [Spi.decode, isName', Option.bind_some, isRest']
    rfl
  obtain ⟨spi, isSpi⟩ := Option.isSome_iff_exists.mp decodes
  have merges := (merges_iff built).mpr ⟨raw, isRaw, isSpi, isMerged⟩
  exact ⟨key, raw, spi, isRaw, isRestored, merges, rfl⟩

theorem decode_snippetWithRestoredServerIds (serverIds : Table RecordId RecordId) (id : RecordId)
    (body : SnippetBody) :
    snippets.decode id (snippetWithRestoredServerIds serverIds body) =
      (snippets.decode id body).map fun snippet =>
        { snippet with autoRunOn := snippet.autoRunOn.map (·.map (renamed serverIds)) } := by
  rw [snippets]
  cases name : body.name <;> cases script : body.script <;>
    simp [snippetWithRestoredServerIds, name, script]

/-- Nothing else is written. -/
theorem writesOnly [DecidableEq DesktopName] (built : restore.graph = some graph)
    (desktopName : Child ChildRest → Option DesktopName) :
    restore.WritesOnly graph desktopName where
  keys := fun item isWritten => by
    obtain ⟨key, -, -, isRestored, -⟩ := NamedKind.of_mem_written isWritten
    exact ⟨key, isRestored⟩
  creds := fun item isWritten => by
    obtain ⟨key, -, -, isRestored, -⟩ := NamedKind.of_mem_written isWritten
    exact ⟨key, isRestored⟩
  servers := fun item isWritten => of_mem_written_servers built isWritten
  snippets := fun item isWritten => by
    obtain ⟨key, record, found, isRestored, decodes⟩ := NamedKind.of_mem_written isWritten
    have unchanged := @NamedKind.restoredAs_mapBodies _ _ snippets restore.force
      restore.stores.snippet restore.file.snippets.records _ _
      (decode_snippetWithRestoredServerIds graph.serverIds) (fun _ => rfl) key
    exact ⟨key, record, found, unchanged ▸ isRestored, decodes⟩
  portForwards := fun item isWritten => of_mem_written_children isWritten
  remoteDesktops := fun item isWritten => of_mem_written_children isWritten

/-- References are kept, and no two records are restored as one, just when what is looked up before
the merges agrees with them. -/
theorem keeps_iff (unique : restore.file.UniqueIds) (built : restore.graph = some graph) :
    restore.Keeps graph ↔ restore.Agrees := by
  refine ⟨fun keeps => ?_, fun agrees => ?_⟩
  · constructor
    case keyIds =>
        intro key raw spi found decodes id isId
        obtain ⟨merged, isMerged, -, isKeyId, -⟩ := decode_serverWithRestoredIds decodes
        have merges := (merges_iff built).mpr ⟨raw, found, decodes, isMerged⟩
        refine (NamedKind.renamed_iff unique.keys).mp fun named names restored isRestored => ?_
        have isKept := keeps.keyIds key spi merged merges id isId named names restored isRestored
        rw [isKeyId, isId] at isKept
        exact Option.some.inj isKept
    case credIds =>
        intro key raw spi found decodes id isId
        obtain ⟨merged, isMerged, -, -, isCredId, -⟩ := decode_serverWithRestoredIds decodes
        have merges := (merges_iff built).mpr ⟨raw, found, decodes, isMerged⟩
        refine (NamedKind.renamed_iff unique.creds).mp fun named names restored isRestored => ?_
        have isKept := keeps.credIds key spi merged merges id isId named names restored isRestored
        rw [isCredId, isId] at isKept
        exact Option.some.inj isKept
    case flatJumps =>
        intro key raw spi ssh found decodes isFlat id isId
        obtain ⟨merged, isMerged, -, -, -, -, unmapped⟩ := decode_serverWithRestoredIds decodes
        have merges := (merges_iff built).mpr ⟨raw, found, decodes, isMerged⟩
        have follows := keeps.jumps key spi merged merges
        rw [unmapped ssh isFlat, List.forall₂_same] at follows
        exact follows id isId
    case textTimestamps =>
        intro timestamps isText
        have follows := keeps.timestamps
        obtain ⟨state, -, rfl⟩ := Option.map_eq_some_iff.mp built
        simpa only [isText, ServerTimestamps.read] using follows
    case keyRows => exact (NamedKind.restoredAs_injective_iff unique.keys).mp keeps.keyRows
    case credRows => exact (NamedKind.restoredAs_injective_iff unique.creds).mp keeps.credRows
    case snippetRows =>
        exact (NamedKind.restoredAs_injective_iff unique.snippets).mp keeps.snippetRows
  · constructor
    case keyIds =>
        intro key spi merged merges id isId named names restored isRestored
        obtain ⟨raw, found, decodes, isMerged⟩ := (merges_iff built).mp merges
        obtain ⟨same, isSame, -, isKeyId, -⟩ := decode_serverWithRestoredIds decodes
        obtain rfl := Option.some.inj (isMerged.symm.trans isSame)
        rw [isKeyId, isId, Option.map_some]
        exact congrArg some ((NamedKind.renamed_iff unique.keys).mpr
          (agrees.keyIds key raw spi found decodes id isId) named names restored isRestored)
    case credIds =>
        intro key spi merged merges id isId named names restored isRestored
        obtain ⟨raw, found, decodes, isMerged⟩ := (merges_iff built).mp merges
        obtain ⟨same, isSame, -, -, isCredId, -⟩ := decode_serverWithRestoredIds decodes
        obtain rfl := Option.some.inj (isMerged.symm.trans isSame)
        rw [isCredId, isId, Option.map_some]
        exact congrArg some ((NamedKind.renamed_iff unique.creds).mpr
          (agrees.credIds key raw spi found decodes id isId) named names restored isRestored)
    case jumps =>
        intro key spi merged merges
        obtain ⟨raw, found, decodes, isMerged⟩ := (merges_iff built).mp merges
        obtain ⟨same, isSame, -, -, -, mapped, unmapped⟩ := decode_serverWithRestoredIds decodes
        obtain rfl := Option.some.inj (isMerged.symm.trans isSame)
        by_cases isFlat : ∃ ssh, raw.body.layout = .flat ssh
        · obtain ⟨ssh, isFlat⟩ := isFlat
          rw [unmapped ssh isFlat, List.forall₂_same]
          exact agrees.flatJumps key raw spi ssh found decodes isFlat
        · rw [mapped fun ssh flat => isFlat ⟨ssh, flat⟩]
          exact follows_renamed built _
    case autoRunOn =>
        intro key raw found
        refine ⟨raw.body.autoRunOn.map (·.map (renamed graph.serverIds)), ?_, ?_⟩
        · rw [Restore.snippetBackup, Section.mapBodies, Table.lookup_mapRows, found]
          rfl
        · cases raw.body.autoRunOn with
          | none => exact .nil
          | some targets => exact follows_renamed built targets
    case portForwards => exact followsChildren built _
    case remoteDesktops => exact followsChildren built _
    case container => exact followsKeys_renameKeys built _
    case pve => exact followsKeys_renameKeys built _
    case timestamps =>
        cases isText : restore.file.spisTimestamps with
        | map timestamps =>
            have isMap : graph.timestamps = .map (renameKeys graph.serverIds timestamps) := by
              obtain ⟨state, -, rfl⟩ := Option.map_eq_some_iff.mp built
              simp only [isText]
            rw [isMap]
            exact followsKeys_renameKeys built _
        | text timestamps =>
            have isSame : graph.timestamps = .text timestamps := by
              obtain ⟨state, -, rfl⟩ := Option.map_eq_some_iff.mp built
              simp only [isText]
            rw [isSame]
            exact agrees.textTimestamps timestamps isText
    case keyRows => exact (NamedKind.restoredAs_injective_iff unique.keys).mpr agrees.keyRows
    case credRows => exact (NamedKind.restoredAs_injective_iff unique.creds).mpr agrees.credRows
    case serverRows =>
        intro key raw other another found foundOther same
        exact restoredServerId_injective built found foundOther same
    case snippetRows =>
        exact (NamedKind.restoredAs_injective_iff unique.snippets).mpr agrees.snippetRows
    case portForwardRows => exact ownRows_of_uniqueIds unique.portForwards
    case remoteDesktopRows => exact ownRows_of_uniqueIds unique.remoteDesktops

end Merged

/-! ### Two restores -/

/-- Ids are unique where each record stands under its own. -/
theorem uniqueIds_of_own {Body : Type} {section_ : Section Body}
    (own : ∀ key raw, section_.lookup key = some (some raw) → raw.id = some key) :
    UniqueIds section_ := by
  have isKey {id key : RecordId} : Names section_ id key → id = key := by
    rintro ⟨raw, found, rfl | rfl⟩
    · rfl
    · rw [ownId, own key raw found, Option.getD_some]
  exact fun id key other names namesOther => (isKey names).symm.trans (isKey namesOther)

/-- A private key under its own id. -/
def keyNamed (id name : String) : RawRecord PrivateKeyBody := ⟨some id, some name, some "", none⟩

/-- A private key here. -/
def keyHere (name : String) : Row PrivateKeyInfo := ⟨⟨name, "", none⟩, [], 0⟩

/-- A server that logs in with a key. -/
def serverWithKey (keyId : RecordId) : RawRecord (ServerBody Unit) :=
  ⟨some "s", some "web", .nested ⟨some keyId, none, none, none⟩, none, some ()⟩

/-- A restore of a server and its key where the key's name is here under another id. -/
def sameName : Restore Unit Unit Unit Unit where
  file :=
    { keys := { records := AList.singleton "a" (some (keyNamed "a" "main")) }
      spis := AList.singleton "s" (some (serverWithKey "a")) }
  stores := { key := { rows := AList.singleton "b" (keyHere "main") } }
  force := true
  now := 1

/-- The keys of a backup where the name of one is the name that the other has here. -/
def rotatedKeys : Section PrivateKeyBody :=
  AList.insert "b" (some (keyNamed "b" "other")) (AList.singleton "a" (some (keyNamed "a" "spare")))

/-- The keys here. -/
def keysHere : Table RecordId (Row PrivateKeyInfo) :=
  AList.insert "b" (keyHere "spare") (AList.singleton "a" (keyHere "main"))

/-- A restore of them with a server that logs in with the one. -/
def rotated : Restore Unit Unit Unit Unit where
  file :=
    { keys := { records := rotatedKeys }
      spis := AList.singleton "s" (some (serverWithKey "a")) }
  stores := { key := { rows := keysHere } }
  force := true
  now := 1

theorem uniqueIds_empty {Body : Type} : UniqueIds (∅ : Section Body) :=
  uniqueIds_of_own fun key raw found => by
    rw [AList.lookup_empty] at found
    cases found

theorem lookup_singleton {Body : Type} {id key : RecordId} {held : Option (RawRecord Body)}
    {raw : RawRecord Body}
    (found : (AList.singleton id held : Section Body).lookup key = some (some raw)) :
    key = id ∧ held = some raw := by
  rw [← AList.insert_empty, Table.lookup_insert_ite] at found
  split at found
  next same => exact ⟨same, Option.some.inj found⟩
  next => cases found

theorem uniqueIds_sameName : sameName.file.UniqueIds where
  keys := uniqueIds_of_own fun key raw found => by
    obtain ⟨rfl, same⟩ := lookup_singleton found
    obtain rfl := Option.some.inj same
    rfl
  creds := uniqueIds_empty
  snippets := uniqueIds_empty
  portForwards := uniqueIds_empty
  remoteDesktops := uniqueIds_empty

theorem uniqueIds_rotated : rotated.file.UniqueIds where
  keys := uniqueIds_of_own fun key raw found => by
    change rotatedKeys.lookup key = some (some raw) at found
    rw [rotatedKeys, Table.lookup_insert_ite] at found
    split at found
    next same =>
        obtain rfl := Option.some.inj (Option.some.inj found)
        rw [same]
        rfl
    next =>
        obtain ⟨rfl, same⟩ := lookup_singleton found
        obtain rfl := Option.some.inj same
        rfl
  creds := uniqueIds_empty
  snippets := uniqueIds_empty
  portForwards := uniqueIds_empty
  remoteDesktops := uniqueIds_empty

theorem agrees_sameName : sameName.Agrees where
  keyIds := by
    intro key raw spi found decodes id isId named held isHeld names decodesKey
    obtain ⟨rfl, same⟩ := lookup_singleton isHeld
    obtain rfl := Option.some.inj same
    obtain ⟨rfl, same⟩ := lookup_singleton found
    obtain rfl := Option.some.inj same
    obtain rfl := Option.some.inj decodes
    obtain rfl := Option.some.inj isId
    exact ⟨fun _ => rfl, fun existing _ _ => by decide⟩
  credIds := by
    intro key raw spi found decodes id isId
    obtain ⟨rfl, same⟩ := lookup_singleton found
    obtain rfl := Option.some.inj same
    obtain rfl := Option.some.inj decodes
    cases isId
  flatJumps := by
    intro key raw spi ssh found decodes isFlat
    obtain ⟨rfl, same⟩ := lookup_singleton found
    obtain rfl := Option.some.inj same
    cases isFlat
  textTimestamps := nofun
  keyRows := by
    intro key raw existing found byName isLocal other another foundOther apart
    exact absurd ((lookup_singleton foundOther).1.trans (lookup_singleton found).1.symm) apart
  credRows := nofun
  snippetRows := nofun

/-- Without `a` here, it is restored over `b`, which is in the backup too. -/
example : privateKeys.restoredAs true { rows := AList.singleton "b" (keyHere "spare") } rotatedKeys
    "a" = some "b" ∧ privateKeys.restoredAs true
      { rows := AList.singleton "b" (keyHere "spare") } rotatedKeys "b" = some "b" := by
  decide

end ServerBox.Backup
