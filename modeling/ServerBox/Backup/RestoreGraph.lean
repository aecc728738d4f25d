import ServerBox.Backup.RestoredIds

/-!
# The graph of servers

What `_restoredServerGraph` builds: each server of a backup under the id that it is restored as, no
two under one, and an id for every reference. `ServerStore.reconcile` leaves a server under that id.
-/

namespace ServerBox.Backup

open ServerBox.Std ServerBox.Store

variable {Rest : Type}

/-- Whether an id names a server of a backup. -/
def NamesServer (spis : Section (ServerBody Rest)) (id key : RecordId)
    (raw : RawRecord (ServerBody Rest)) : Prop :=
  spis.lookup key = some (some raw) ∧ (id = key ∨ id = backupId key raw)

theorem claim_eq {owners claimed : Table RecordId RecordId} {id key : RecordId}
    (isClaimed : claim owners id key = some claimed) :
    claimed = owners.insert id key ∧ ∀ owner, owners.lookup id = some owner → owner = key := by
  rw [claim] at isClaimed
  split at isClaimed
  next free =>
      refine ⟨(Option.some.inj isClaimed).symm, fun owner isOwner => ?_⟩
      rw [isOwner] at free
      simpa using free
  next => cases isClaimed

/-- What the graph holds of a server record once it was added. -/
structure GraphState.Holds (store : EntityStore (Spi Rest)) (key : RecordId)
    (raw : RawRecord (ServerBody Rest)) (graph : GraphState Rest) : Prop where
  byKey : graph.serverIds.lookup key = some (restoredServerId store key raw)
  byId : graph.serverIds.lookup (backupId key raw) = some (restoredServerId store key raw)
  record : graph.decoded.lookup (restoredServerId store key raw) =
    some { raw with id := some (restoredServerId store key raw) }
  ownsKey : graph.sourceOwners.lookup key = some key
  ownsId : graph.sourceOwners.lookup (backupId key raw) = some key
  ownsDestination : graph.destinationOwners.lookup (restoredServerId store key raw) = some key

variable {store : EntityStore (Spi Rest)} {graph after : GraphState Rest} {key : RecordId}
  {raw : RawRecord (ServerBody Rest)}

/-- What adding a record does, and what it asks of the ids before it. -/
theorem of_addServer (added : addServer store graph key raw = some after) :
    (∀ owner, graph.sourceOwners.lookup key = some owner → owner = key) ∧
    (∀ owner, graph.sourceOwners.lookup (backupId key raw) = some owner → owner = key) ∧
    (∀ owner, graph.destinationOwners.lookup (restoredServerId store key raw) = some owner →
      owner = key) ∧
    after =
      { serverIds := (graph.serverIds.insert key (restoredServerId store key raw)).insert
          (backupId key raw) (restoredServerId store key raw)
        decoded := graph.decoded.insert (restoredServerId store key raw)
          { raw with id := some (restoredServerId store key raw) }
        sourceOwners := (graph.sourceOwners.insert key key).insert (backupId key raw) key
        destinationOwners :=
          graph.destinationOwners.insert (restoredServerId store key raw) key } := by
  rw [addServer] at added
  obtain ⟨keyClaimed, isKey, added⟩ := Option.bind_eq_some_iff.mp added
  obtain ⟨sourceOwners, isSource, added⟩ := Option.bind_eq_some_iff.mp added
  obtain ⟨destinationOwners, isDestination, added⟩ := Option.bind_eq_some_iff.mp added
  obtain ⟨rfl, freeKey⟩ := claim_eq isKey
  obtain ⟨rfl, freeId⟩ := claim_eq isSource
  obtain ⟨rfl, freeDestination⟩ := claim_eq isDestination
  refine ⟨freeKey, fun owner isOwner => ?_, freeDestination, (Option.some.inj added).symm⟩
  by_cases same : backupId key raw = key
  · rw [same] at isOwner
    exact freeKey owner isOwner
  · refine freeId owner ?_
    rwa [AList.lookup_insert_ne same]

theorem holds_addServer (added : addServer store graph key raw = some after) :
    after.Holds store key raw := by
  obtain ⟨-, -, -, rfl⟩ := of_addServer added
  constructor <;> simp [Table.lookup_insert_ite]

/-- A record that was added stays. -/
theorem GraphState.Holds.addServer {other : RecordId} {another : RawRecord (ServerBody Rest)}
    (held : graph.Holds store other another) (apart : other ≠ key)
    (added : addServer store graph key raw = some after) : after.Holds store other another := by
  obtain ⟨freeKey, freeId, freeDestination, rfl⟩ := of_addServer added
  have notKey {id : RecordId} (owned : graph.sourceOwners.lookup id = some other) : id ≠ key := by
    rintro rfl
    exact apart (freeKey other owned)
  have notId {id : RecordId} (owned : graph.sourceOwners.lookup id = some other) :
      id ≠ backupId key raw := by
    rintro rfl
    exact apart (freeId other owned)
  have notDestination : restoredServerId store other another ≠ restoredServerId store key raw :=
    fun same => apart (freeDestination other (same ▸ held.ownsDestination))
  constructor
  case byKey =>
      rw [AList.lookup_insert_ne (notId held.ownsKey), AList.lookup_insert_ne (notKey held.ownsKey)]
      exact held.byKey
  case byId =>
      rw [AList.lookup_insert_ne (notId held.ownsId), AList.lookup_insert_ne (notKey held.ownsId)]
      exact held.byId
  case record =>
      rw [AList.lookup_insert_ne notDestination]
      exact held.record
  case ownsKey =>
      rw [AList.lookup_insert_ne (notId held.ownsKey), AList.lookup_insert_ne (notKey held.ownsKey)]
      exact held.ownsKey
  case ownsId =>
      rw [AList.lookup_insert_ne (notId held.ownsId), AList.lookup_insert_ne (notKey held.ownsId)]
      exact held.ownsId
  case ownsDestination =>
      rw [AList.lookup_insert_ne notDestination]
      exact held.ownsDestination

theorem holds_addServers {entries : List ((_ : RecordId) × Option (RawRecord (ServerBody Rest)))}
    (distinct : entries.NodupKeys) (added : addServers store entries graph = some after) :
    (∀ other another, graph.Holds store other another → other ∉ entries.keys →
      after.Holds store other another) ∧
    (∀ other another, ⟨other, some another⟩ ∈ entries → after.Holds store other another) := by
  induction entries generalizing graph with
  | nil =>
      obtain rfl := Option.some.inj added
      exact ⟨fun _ _ held _ => held, nofun⟩
  | cons entry entries inductionHypothesis =>
      obtain ⟨key, held⟩ := entry
      obtain ⟨fresh, distinctRest⟩ := List.nodupKeys_cons.mp distinct
      cases held with
      | none =>
          obtain ⟨stays, isAdded⟩ := inductionHypothesis distinctRest added
          refine ⟨fun other another holds absent => stays other another holds fun isKey =>
            absent (List.mem_cons_of_mem _ isKey), fun other another isEntry => ?_⟩
          rcases List.mem_cons.mp isEntry with same | later
          · cases same
          · exact isAdded other another later
      | some raw =>
          obtain ⟨next, isNext, rest⟩ := Option.bind_eq_some_iff.mp added
          obtain ⟨stays, isAdded⟩ := inductionHypothesis distinctRest rest
          refine ⟨fun other another holds absent => ?_, fun other another isEntry => ?_⟩
          · have apart : other ≠ key := fun same => absent (same ▸ List.mem_cons_self)
            exact stays other another (holds.addServer apart isNext) fun isKey =>
              absent (List.mem_cons_of_mem _ isKey)
          · rcases List.mem_cons.mp isEntry with same | later
            · cases same
              exact stays _ _ (holds_addServer isNext) fresh
            · exact isAdded other another later

/-- The graph holds nothing but the records of the backup. -/
theorem decoded_addServers {entries : List ((_ : RecordId) × Option (RawRecord (ServerBody Rest)))}
    (added : addServers store entries graph = some after) {restored : RecordId}
    {record : RawRecord (ServerBody Rest)} (found : after.decoded.lookup restored = some record) :
    graph.decoded.lookup restored = some record ∨ ∃ key raw, ⟨key, some raw⟩ ∈ entries ∧
      restored = restoredServerId store key raw ∧ record = { raw with id := some restored } := by
  induction entries generalizing graph with
  | nil =>
      obtain rfl := Option.some.inj added
      exact .inl found
  | cons entry entries inductionHypothesis =>
      obtain ⟨key, held⟩ := entry
      cases held with
      | none =>
          refine (inductionHypothesis added).imp_right ?_
          rintro ⟨other, raw, isEntry, rest⟩
          exact ⟨other, raw, List.mem_cons_of_mem _ isEntry, rest⟩
      | some raw =>
          obtain ⟨next, isNext, rest⟩ := Option.bind_eq_some_iff.mp added
          rcases inductionHypothesis rest with earlier | ⟨other, another, isEntry, isRecord⟩
          · obtain ⟨-, -, -, rfl⟩ := of_addServer isNext
            rw [Table.lookup_insert_ite] at earlier
            split at earlier
            next same =>
                exact .inr ⟨key, raw, List.mem_cons_self, same, by
                  rw [same]; exact (Option.some.inj earlier).symm⟩
            next => exact .inl earlier
          · exact .inr ⟨other, another, List.mem_cons_of_mem _ isEntry, isRecord⟩

section Graph

variable {keyIds credIds : Table RecordId RecordId} {spis : Section (ServerBody Rest)}
  {timestamps : ServerTimestamps} {graph : ServerGraph Rest}

/-- Every server of the backup is in the graph, under its local id. -/
theorem holds_restoredServerGraph
    (built : restoredServerGraph keyIds credIds store spis timestamps = some graph)
    (found : spis.lookup key = some (some raw)) :
    ∃ state : GraphState Rest, state.Holds store key raw ∧ graph.serverIds = state.serverIds ∧
      graph.servers = state.decoded.mapRows fun raw => some
        { raw with body := serverWithRestoredIds keyIds credIds state.serverIds raw.body } := by
  obtain ⟨state, added, rfl⟩ := Option.map_eq_some_iff.mp built
  exact ⟨state, (holds_addServers spis.nodupKeys added).2 key raw (AList.mem_lookup_iff.mp found),
    rfl, rfl⟩

/-- A reference to a server is looked up as what the server is restored as. -/
theorem renamed_serverIds
    (built : restoredServerGraph keyIds credIds store spis timestamps = some graph)
    {id : RecordId} (names : NamesServer spis id key raw) :
    renamed graph.serverIds id = restoredServerId store key raw := by
  obtain ⟨state, holds, sameIds, -⟩ := holds_restoredServerGraph built names.1
  rw [renamed, sameIds]
  rcases names.2 with rfl | rfl
  · rw [holds.byKey, Option.getD_some]
  · rw [holds.byId, Option.getD_some]

theorem lookup_servers
    (built : restoredServerGraph keyIds credIds store spis timestamps = some graph)
    (found : spis.lookup key = some (some raw)) :
    graph.servers.lookup (restoredServerId store key raw) =
      some (some ⟨some (restoredServerId store key raw),
        serverWithRestoredIds keyIds credIds graph.serverIds raw.body⟩) := by
  obtain ⟨state, holds, sameIds, servers⟩ := holds_restoredServerGraph built found
  rw [servers, Table.lookup_mapRows, holds.record, sameIds]
  rfl

/-- The servers that are merged are those of the backup. -/
theorem of_lookup_servers
    (built : restoredServerGraph keyIds credIds store spis timestamps = some graph)
    {restored : RecordId} {merged : RawRecord (ServerBody Rest)}
    (found : graph.servers.lookup restored = some (some merged)) :
    ∃ key raw, spis.lookup key = some (some raw) ∧ restored = restoredServerId store key raw ∧
      merged = ⟨some restored, serverWithRestoredIds keyIds credIds graph.serverIds raw.body⟩ := by
  obtain ⟨state, added, rfl⟩ := Option.map_eq_some_iff.mp built
  dsimp only at found
  rw [Table.lookup_mapRows] at found
  obtain ⟨record, isRecord, isMerged⟩ := Option.map_eq_some_iff.mp found
  rcases decoded_addServers added isRecord with nothing | ⟨key, raw, isEntry, isRestored, rfl⟩
  · rw [AList.lookup_empty] at nothing
    cases nothing
  · exact ⟨key, raw, AList.mem_lookup_iff.mpr isEntry, isRestored, (Option.some.inj isMerged).symm⟩

/-- Two servers are not restored as one. -/
theorem restoredServerId_injective
    (built : restoredServerGraph keyIds credIds store spis timestamps = some graph)
    (found : spis.lookup key = some (some raw)) {other : RecordId}
    {another : RawRecord (ServerBody Rest)} (foundOther : spis.lookup other = some (some another))
    (same : restoredServerId store key raw = restoredServerId store other another) :
    key = other := by
  obtain ⟨state, added, -⟩ := Option.map_eq_some_iff.mp built
  have holds := (holds_addServers spis.nodupKeys added).2
  have owns := (holds key raw (AList.mem_lookup_iff.mp found)).ownsDestination
  rw [same, (holds other another (AList.mem_lookup_iff.mp foundOther)).ownsDestination] at owns
  exact (Option.some.inj owns).symm

/-- `reconcile` leaves a server under the id that the graph gave it. -/
theorem reconcileServer_eq {spi : Spi Rest} {links : List RecordId}
    (named : raw.body.name = some spi.name) :
    reconcileServer store.rows ⟨restoredServerId store key raw, spi, links⟩ =
      ⟨restoredServerId store key raw, spi, links⟩ := by
  rw [reconcileServer]
  split
  next => rfl
  next absent =>
      rw [restoredServerId] at absent ⊢
      split at absent
      next here => exact absurd here absent
      next notHere =>
          rw [if_neg notHere, named, Option.map_some] at *
          split at absent
          next server isServer =>
              refine absurd ?_ absent
              have isEntry : server ∈ store.rows.entries.filter fun entry =>
                  entry.2.value.name = spi.name := by
                rw [Option.some.inj isServer]
                exact List.mem_singleton_self server
              have isRow := (List.mem_filter.mp isEntry).1
              exact AList.mem_keys.mpr (List.mem_map.mpr ⟨server, isRow, rfl⟩)
          next several =>
              split
              next server isServer => exact absurd (congrArg some isServer) (several server)
              next => rfl

end Graph

end ServerBox.Backup
