import ServerBox.Store.EntityStore

/-!
# The ids that a restore gives

`lib/data/model/app/bak/backup_restore.dart` and the `reconcile` of the stores. A record of a
backup may be one that this device holds under another id. Two places decide that: `reconcile`, as
a store's `merge` reaches the record, and `_restoredIds` and `_restoredServerGraph` before any
merge, for the references between records.
-/

namespace ServerBox.Backup

open ServerBox.Std ServerBox.Store

/-! ### Records taken for one another by name -/

/-- A store that takes a record for one of its own by name: private keys, BMC accounts and
snippets. -/
structure NamedKind (Value Body : Type) where
  decode : RecordId → Body → Option Value
  encode : Value → Body
  name : Value → String

/-- The records of a section of a backup, none where one is null. -/
abbrev Section (Body : Type) := Table RecordId (Option (RawRecord Body))

/-- The id that a record is read with: its own, or the one it stands under. -/
def ownId {Body : Type} (key : RecordId) (raw : RawRecord Body) : RecordId := raw.id.getD key

/-- Whether an id names a record of a backup. -/
def Names {Body : Type} (section_ : Section Body) (id key : RecordId) : Prop :=
  ∃ raw, section_.lookup key = some (some raw) ∧ (id = key ∨ id = ownId key raw)

/-- Whether the ids inside a backup are unique. -/
def UniqueIds {Body : Type} (section_ : Section Body) : Prop :=
  ∀ id key other, Names section_ id key → Names section_ id other → key = other

namespace NamedKind

variable {Value Body : Type} (kind : NamedKind Value Body)

/-- `fetchByName`. -/
def fetchByName (store : EntityStore Value) (name : String) : Option RecordId :=
  (store.rows.entries.find? fun entry => kind.name entry.2.value = name).map Sigma.fst

/-- `reconcile`, against the rows that are cached. -/
def reconcile (cached : Table RecordId (Row Value)) (incoming : Item Value) : Item Value :=
  if incoming.id ∈ cached then incoming
  else
    match cached.entries.find? fun entry => kind.name entry.2.value = kind.name incoming.value with
    | none => incoming
    | some existing => { incoming with id := existing.1 }

/-- The store's class. -/
def storeKind : StoreKind Value Body String where
  isServer := false
  fromJson := fun record => record.id.bind fun id =>
    (kind.decode id record.body).map fun value => ⟨id, value, []⟩
  toJson := fun item => ⟨some item.id, kind.encode item.value⟩
  uniqueName := fun value => some (kind.name value)
  refused := fun _ => false
  reconcile := kind.reconcile

/-- `_restoredIds`: the local ids of the records whose name exists here. -/
def restoredIds (store : EntityStore Value) (section_ : Section Body) : Table RecordId RecordId :=
  section_.entries.foldl (fun out entry =>
    match entry.2 with
    | none => out
    | some raw =>
        match kind.decode (ownId entry.1 raw) raw.body with
        | none => out
        | some value =>
            match kind.fetchByName store (kind.name value) with
            | none => out
            | some restored => (out.insert entry.1 restored).insert (ownId entry.1 raw) restored) ∅

end NamedKind

/-- A private key. -/
structure PrivateKeyInfo where
  name : String
  key : String
  comment : Option String
deriving DecidableEq, Repr

/-- A private key as a backup carries it. -/
structure PrivateKeyBody where
  name : Option String
  key : Option String
  comment : Option String
deriving DecidableEq, Repr

/-- `PrivateKeyStore`: a key without a name is shown under its id. -/
def privateKeys : NamedKind PrivateKeyInfo PrivateKeyBody where
  decode := fun id body => body.key.map fun key =>
    ⟨(body.name.filter (· ≠ "")).getD id, key, body.comment⟩
  encode := fun value => ⟨some value.name, some value.key, value.comment⟩
  name := PrivateKeyInfo.name

/-- An account on a BMC. -/
structure BmcCredential where
  name : String
  user : String
  pwd : Option String
deriving DecidableEq, Repr

/-- An account on a BMC as a backup carries it. -/
structure BmcCredentialBody where
  name : Option String
  user : Option String
  pwd : Option String
deriving DecidableEq, Repr

/-- `BmcCredentialStore`. -/
def bmcCredentials : NamedKind BmcCredential BmcCredentialBody where
  decode := fun _ body => body.name.bind fun name => body.user.map fun user =>
    ⟨name, user, body.pwd⟩
  encode := fun value => ⟨some value.name, some value.user, value.pwd⟩
  name := BmcCredential.name

/-- A snippet. -/
structure Snippet where
  name : String
  script : String
  tags : Option (List String)
  note : Option String
  autoRunOn : Option (List RecordId)
deriving DecidableEq, Repr

/-- A snippet as a backup carries it. -/
structure SnippetBody where
  name : Option String
  script : Option String
  tags : Option (List String)
  note : Option String
  autoRunOn : Option (List RecordId)
deriving DecidableEq, Repr

/-- `SnippetStore`. -/
def snippets : NamedKind Snippet SnippetBody where
  decode := fun _ body => body.name.bind fun name => body.script.map fun script =>
    ⟨name, script, body.tags, body.note, body.autoRunOn⟩
  encode := fun value =>
    ⟨some value.name, some value.script, value.tags, value.note, value.autoRunOn⟩
  name := Snippet.name

/-! ### Servers -/

/-- The references of an SSH configuration, with the fields of earlier builds. -/
structure SshBody where
  pubKeyId : Option RecordId
  keyId : Option RecordId
  jumpId : Option RecordId
  jumpIds : Option (List RecordId)
deriving DecidableEq, Repr

/-- Where a server record has its SSH configuration: under `ssh`, at its top as before version 3,
or nowhere. -/
inductive Layout where
  | nested (ssh : SshBody)
  | flat (ssh : SshBody)
  | bare
deriving DecidableEq, Repr

/-- The SSH configuration that is read, whichever the layout. -/
def Layout.ssh : Layout → Option SshBody
  | .nested ssh => some ssh
  | .flat ssh => some ssh
  | .bare => none

/-- A server as a backup carries it: `rest` are its other fields, none if one does not decode. -/
structure ServerBody (Rest : Type) where
  name : Option String
  layout : Layout
  credId : Option RecordId
  rest : Option Rest
deriving DecidableEq, Repr

/-- `Spi`. -/
structure Spi (Rest : Type) where
  name : String
  ssh : Option SshBody
  credId : Option RecordId
  rest : Rest
deriving DecidableEq, Repr

namespace Spi

variable {Rest : Type}

/-- `Spi.fromJson`, apart from the id. -/
def decode (body : ServerBody Rest) : Option (Spi Rest) :=
  body.name.bind fun name => body.rest.map fun rest => ⟨name, body.layout.ssh, body.credId, rest⟩

/-- `SshCredential.keyId`. -/
def keyId (spi : Spi Rest) : Option RecordId := spi.ssh.bind SshBody.pubKeyId

/-- The jump ids as they are written, the field of earlier builds last. -/
def jumpRefs (spi : Spi Rest) : List RecordId :=
  (spi.ssh.bind SshBody.jumpIds).getD [] ++ (spi.ssh.bind SshBody.jumpId).toList

/-- `resolvedJumpIds`. -/
def resolvedJumpIds (spi : Spi Rest) : List RecordId :=
  let ids := (((spi.ssh.bind SshBody.jumpIds).getD []).filter (· ≠ "")).foldl
    (fun ids id => if id ∈ ids then ids else ids ++ [id]) []
  if ids.isEmpty then (spi.ssh.bind SshBody.jumpId).toList.filter (· ≠ "") else ids

end Spi

/-- `ServerStore.reconcile`: a name stands in for an id that is not here, if one server has it. -/
def reconcileServer {Rest : Type} (cached : Table RecordId (Row (Spi Rest)))
    (incoming : Item (Spi Rest)) : Item (Spi Rest) :=
  if incoming.id ∈ cached then incoming
  else
    match cached.entries.filter fun entry => entry.2.value.name = incoming.value.name with
    | [named] => { incoming with id := named.1 }
    | _ => incoming

/-- `ServerStore`: a key or an account that is not here is refused. -/
def servers {Rest Key Cred : Type} (keys : EntityStore Key) (creds : EntityStore Cred) :
    StoreKind (Spi (Rest)) (ServerBody Rest) Empty where
  isServer := true
  fromJson := fun record => record.id.bind fun id =>
    (Spi.decode record.body).map fun spi => ⟨id, spi, spi.resolvedJumpIds⟩
  toJson := fun item => ⟨some item.id, ⟨some item.value.name,
    (item.value.ssh.map Layout.nested).getD .bare, item.value.credId, some item.value.rest⟩⟩
  uniqueName := fun _ => none
  refused := fun spi => spi.keyId.any (· ∉ keys.rows) || spi.credId.any (· ∉ creds.rows)
  reconcile := reconcileServer

/-! ### References -/

/-- A reference to a record with its id looked up. -/
def renamed (ids : Table RecordId RecordId) (id : RecordId) : RecordId := (ids.lookup id).getD id

/-- `_sshWithRestoredKeyId`. -/
def sshWithRestoredKeyId (keyIds : Table RecordId RecordId) (ssh : SshBody) : SshBody :=
  { ssh with
    pubKeyId := ssh.pubKeyId.map (renamed keyIds)
    keyId := ssh.keyId.map (renamed keyIds) }

/-- `_sshWithRestoredIds`. -/
def sshWithRestoredIds (keyIds serverIds : Table RecordId RecordId) (ssh : SshBody) : SshBody :=
  { sshWithRestoredKeyId keyIds ssh with
    jumpId := ssh.jumpId.map (renamed serverIds)
    jumpIds := ssh.jumpIds.map (·.map (renamed serverIds)) }

/-- `_serverWithRestoredIds`: at the top of a record, only the key's id is looked up. -/
def serverWithRestoredIds {Rest : Type} (keyIds credIds serverIds : Table RecordId RecordId)
    (server : ServerBody Rest) : ServerBody Rest :=
  { server with
    layout := match server.layout with
      | .nested ssh => .nested (sshWithRestoredIds keyIds serverIds ssh)
      | .flat ssh => .flat (sshWithRestoredKeyId keyIds ssh)
      | .bare => .bare
    credId := server.credId.map (renamed credIds) }

/-- `_snippetWithRestoredServerIds`. -/
def snippetWithRestoredServerIds (serverIds : Table RecordId RecordId) (snippet : SnippetBody) :
    SnippetBody :=
  { snippet with autoRunOn := snippet.autoRunOn.map (·.map (renamed serverIds)) }

/-- A port forward or a remote desktop as a backup carries it. -/
structure ChildBody (Rest : Type) where
  serverId : Option RecordId
  rest : Option Rest
deriving DecidableEq, Repr

/-- A port forward or a remote desktop. -/
structure Child (Rest : Type) where
  serverId : RecordId
  rest : Rest
deriving DecidableEq, Repr

/-- `PortForwardStore` and `RemoteDesktopStore`: one whose server is not here is refused. Some
columns of theirs may be unique together. -/
def children {Rest Name Server : Type} (uniqueName : Child Rest → Option Name)
    (servers : EntityStore Server) : StoreKind (Child Rest) (ChildBody Rest) Name where
  isServer := false
  fromJson := fun record => record.id.bind fun id => record.body.serverId.bind fun serverId =>
    record.body.rest.map fun rest => ⟨id, ⟨serverId, rest⟩, []⟩
  toJson := fun item => ⟨some item.id, ⟨some item.value.serverId, some item.value.rest⟩⟩
  uniqueName := uniqueName
  refused := fun child => child.serverId ∉ servers.rows
  reconcile := fun _ item => item

/-- `_recordWithRestoredServerId`. -/
def recordWithRestoredServerId {Rest : Type} (serverIds : Table RecordId RecordId)
    (record : ChildBody Rest) : ChildBody Rest :=
  { record with serverId := record.serverId.map (renamed serverIds) }

/-- The records of a section changed, each under its key and with its id. -/
def Section.mapBodies {Body : Type} (change : Body → Body) (section_ : Section Body) :
    Section Body :=
  section_.mapRows fun raw => raw.map fun raw => { raw with body := change raw.body }

/-- A table whose keys are looked up, a later one taking the place of an earlier. -/
def renameKeys {Row : Type} (serverIds : Table RecordId RecordId) (table : Table RecordId Row) :
    Table RecordId Row :=
  table.entries.foldl (fun out entry => out.insert (renamed serverIds entry.1) entry.2) ∅

/-! ### The graph of servers -/

/-- When each server of a backup was changed: the map, or the text of one as before. -/
inductive ServerTimestamps where
  | map (timestamps : Table RecordId Int)
  | text (timestamps : Table RecordId Int)

/-- `_timestampsOf`. -/
def ServerTimestamps.read : ServerTimestamps → Table RecordId Int
  | .map timestamps => timestamps
  | .text timestamps => timestamps

/-- The servers of a backup with what they point at looked up, and the local id of each. -/
structure ServerGraph (Rest : Type) where
  servers : Section (ServerBody Rest)
  timestamps : ServerTimestamps
  serverIds : Table RecordId RecordId

/-- The graph as it is built: the records by the ids they get, and which record has an id. -/
structure GraphState (Rest : Type) where
  serverIds : Table RecordId RecordId := ∅
  decoded : Table RecordId (RawRecord (ServerBody Rest)) := ∅
  sourceOwners : Table RecordId RecordId := ∅
  destinationOwners : Table RecordId RecordId := ∅

/-- The id that a server record is known by in the backup. -/
def backupId {Rest : Type} (key : RecordId) (raw : RawRecord (ServerBody Rest)) : RecordId :=
  (raw.id.filter (· ≠ "")).getD key

/-- The id that a server record gets: its own if that is here, or that of the one server here of
its name. -/
def restoredServerId {Rest : Type} (store : EntityStore (Spi Rest)) (key : RecordId)
    (raw : RawRecord (ServerBody Rest)) : RecordId :=
  if backupId key raw ∈ store.rows then backupId key raw
  else
    match raw.body.name.map fun name =>
      store.rows.entries.filter fun entry => entry.2.value.name = name with
    | some [named] => named.1
    | _ => backupId key raw

/-- `claimSourceId`, and the claim of a destination; none where another record has the id. -/
def claim (owners : Table RecordId RecordId) (id key : RecordId) :
    Option (Table RecordId RecordId) :=
  if (owners.lookup id).all (· = key) then some (owners.insert id key) else none

/-- The body of the loop of `_restoredServerGraph`; none where it throws. -/
def addServer {Rest : Type} (store : EntityStore (Spi Rest)) (graph : GraphState Rest)
    (key : RecordId) (raw : RawRecord (ServerBody Rest)) : Option (GraphState Rest) := do
  let restored := restoredServerId store key raw
  let keyClaimed ← claim graph.sourceOwners key key
  let sourceOwners ← claim keyClaimed (backupId key raw) key
  let destinationOwners ← claim graph.destinationOwners restored key
  some {
    serverIds := (graph.serverIds.insert key restored).insert (backupId key raw) restored
    decoded := graph.decoded.insert restored { raw with id := some restored }
    sourceOwners
    destinationOwners }

/-- The loop of `_restoredServerGraph`. -/
def addServers {Rest : Type} (store : EntityStore (Spi Rest)) :
    List ((_ : RecordId) × Option (RawRecord (ServerBody Rest))) → GraphState Rest →
      Option (GraphState Rest)
  | [], graph => some graph
  | ⟨_, none⟩ :: entries, graph => addServers store entries graph
  | ⟨key, some raw⟩ :: entries, graph => do
      addServers store entries (← addServer store graph key raw)

/-- `_restoredServerGraph`; none where it throws. -/
def restoredServerGraph {Rest : Type} (keyIds credIds : Table RecordId RecordId)
    (store : EntityStore (Spi Rest)) (spis : Section (ServerBody Rest))
    (timestamps : ServerTimestamps) : Option (ServerGraph Rest) :=
  (addServers store spis.entries {}).map fun graph =>
    { servers := graph.decoded.mapRows fun raw =>
        some { raw with body := serverWithRestoredIds keyIds credIds graph.serverIds raw.body }
      timestamps := match timestamps with
        | .map timestamps => .map (renameKeys graph.serverIds timestamps)
        | .text timestamps => .text timestamps
      serverIds := graph.serverIds }

end ServerBox.Backup
