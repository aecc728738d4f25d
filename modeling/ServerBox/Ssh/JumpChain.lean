import ServerBox.Ssh.SshCredential
import ServerBox.Std.Acyclic
import ServerBox.Std.System
import ServerBox.Std.Table

/-!
# Jump servers

The jump-cycle check of `src/lib/core/ssh/jump_chain.dart`, and the walk of `genClient` over
every candidate of every server (`src/lib/core/ssh/client.dart`).
-/

namespace ServerBox.Ssh.JumpChain

open ServerBox.Std Relation

/-! ### The check -/

/-- `_normalizeJumpIds`, from those that are there. -/
def normalizeJumpIds (normalized : List Text) : List Text → List Text
  | [] => normalized
  | id :: ids =>
      if id = [] ∨ id ∈ normalized then normalizeJumpIds normalized ids
      else if (normalized ++ [id]).length ≥ 2 then normalized ++ [id]
      else normalizeJumpIds (normalized ++ [id]) ids

theorem visit_lt {Row : Type} {table : Table Text Row} {id : Text} {path : List Text} {row : Row}
    (held : table.lookup id = some row) (fresh : id ∉ path) :
    (table.keys.filter (· ∉ id :: path)).length < (table.keys.filter (· ∉ path)).length := by
  have isKey : id ∈ table.keys := by
    rw [← AList.mem_keys, ← AList.lookup_isSome, held]
    rfl
  have fewer : table.keys.filter (· ∉ id :: path) =
      (table.keys.filter (· ∉ path)).filter (· ≠ id) := by
    rw [List.filter_filter]
    exact List.filter_congr fun key _ => by simp [List.mem_cons, not_or]
  rw [fewer]
  refine List.length_filter_lt_length_iff_exists.mpr ⟨id, List.mem_filter.mpr ⟨isKey, ?_⟩, ?_⟩
  · exact decide_eq_true fresh
  · simp

/-- `_hasJumpCycleFrom`. -/
def hasJumpCycleFrom (currentServerId : Option Text) (serversById : Table Text Spi)
    (checkingId : Text) (path : List Text) : Bool :=
  if currentServerId = some checkingId then true
  else if _ : checkingId ∈ path then true
  else
    match _ : serversById.lookup checkingId with
    | none => false
    | some jumpSpi =>
        jumpSpi.resolvedJumpIds.any fun nextId =>
          hasJumpCycleFrom currentServerId serversById nextId (checkingId :: path)
termination_by (serversById.keys.filter (· ∉ path)).length
decreasing_by exact visit_lt ‹_› ‹_›

def wouldCreateJumpCycleForCandidates (currentServerId : Option Text)
    (candidateJumpIds : List Text) (serversById : Table Text Spi) : Bool :=
  (normalizeJumpIds [] candidateJumpIds).any fun candidateJumpId =>
    hasJumpCycleFrom currentServerId serversById candidateJumpId []

/-! ### The walk -/

/-- How one hop of the walk fails before anything is dialled. -/
inductive Failure where
  | noCredential
  | cycle
  | addressCycle
  | jumpServersNotFound
  /-- The walk is longer than it was followed. -/
  | endless
deriving DecidableEq

def addrKey (ssh : SshCredential) : Text :=
  "addr:".toList ++ ssh.ip ++ ':' :: (toString ssh.port).toList

/-- `_resolveJumpCandidates`, of those that were found. -/
def resolveJumpCandidates (serversById : Table Text Spi) (candidates : List Spi) :
    List Text → List Spi
  | [] => candidates
  | jumpId :: jumpIds =>
      match serversById.lookup jumpId with
      | none => resolveJumpCandidates serversById candidates jumpIds
      | some candidate =>
          if candidates.any fun found => found.id = candidate.id then
            resolveJumpCandidates serversById candidates jumpIds
          else resolveJumpCandidates serversById (candidates ++ [candidate]) jumpIds

/-- `genClient` over every candidate of every server: how each of its hops fails, of those that
do. -/
def genClient (serversById : Table Text Spi) : Nat → Spi → List Text → List Failure
  | 0, _, _ => [.endless]
  | hops + 1, spi, visitedServerIds =>
      match spi.ssh with
      | none => [.noCredential]
      | some ssh =>
          if hostKeyServerId spi ∈ visitedServerIds then [.cycle]
          else if addrKey ssh ∈ hostKeyServerId spi :: visitedServerIds then [.addressCycle]
          else
            let jumpSpis := resolveJumpCandidates serversById [] spi.resolvedJumpIds
            if spi.resolvedJumpIds ≠ [] ∧ jumpSpis = [] then [.jumpServersNotFound]
            else
              jumpSpis.flatMap fun jumpSpi =>
                genClient serversById hops jumpSpi
                  (addrKey ssh :: hostKeyServerId spi :: visitedServerIds)

/-! ### Sets of servers and their edits -/

/-- Servers under their ids. -/
structure Servers where
  byId : Table Text Spi
  filed : ∀ id spi, byId.lookup id = some spi → spi.id = id ∧ id ≠ []

def Spi.withJumpIds (spi : Spi) (jumpIds : List Text) : Spi :=
  { spi with
    ssh := spi.ssh.map fun ssh =>
      { ssh with jumpId := none, jumpIds := if jumpIds = [] then none else some jumpIds } }

/-- A server's jump servers are chosen. -/
structure Edit where
  id : Text
  jumpIds : List Text
deriving DecidableEq

def Servers.put (servers : Servers) (id : Text) (spi : Spi) (filed : spi.id = id ∧ id ≠ []) :
    Servers where
  byId := AList.insert id spi servers.byId
  filed := by
    intro other another held
    rw [Table.lookup_insert_ite] at held
    split at held
    next same =>
      cases held
      exact same ▸ filed
    next => exact servers.filed other another held

/-- What the editor saves, when the check allows it. -/
def next (servers : Servers) (edit : Edit) : Option Servers :=
  if wouldCreateJumpCycleForCandidates (some edit.id) edit.jumpIds servers.byId then none
  else
    match held : servers.byId.lookup edit.id with
    | none => none
    | some spi =>
        some (servers.put edit.id (Spi.withJumpIds spi edit.jumpIds)
          (servers.filed edit.id spi held))

/-! ### What the check answers -/

section

variable {currentServerId : Option Text} {serversById : Table Text Spi}

/-- A server is there, and one of its jump ids is the other. -/
def Jumps (serversById : Table Text Spi) (id nextId : Text) : Prop :=
  ∃ spi, serversById.lookup id = some spi ∧ nextId ∈ spi.resolvedJumpIds

/-- From the candidate, jump ids lead to the current server or to a cycle that is there. -/
def LeadsToCycle (currentServerId : Option Text) (serversById : Table Text Spi)
    (candidateId : Text) : Prop :=
  ∃ id, ReflTransGen (Jumps serversById) candidateId id ∧
    (currentServerId = some id ∨ TransGen (Jumps serversById) id id)

/-- From some candidate they do. An empty one is no jump id. -/
def CreatesCycle (currentServerId : Option Text) (candidateJumpIds : List Text)
    (serversById : Table Text Spi) : Prop :=
  ∃ candidateId ∈ candidateJumpIds, candidateId ≠ [] ∧
    LeadsToCycle currentServerId serversById candidateId

theorem LeadsToCycle.of_jumps {id nextId : Text} (jumps : Jumps serversById id nextId)
    (leads : LeadsToCycle currentServerId serversById nextId) :
    LeadsToCycle currentServerId serversById id := by
  obtain ⟨last, steps, isCycle⟩ := leads
  exact ⟨last, .head jumps steps, isCycle⟩

/-- What leads to a cycle is the current server or leads there by one of its jump ids. -/
theorem LeadsToCycle.jumps {id : Text} (leads : LeadsToCycle currentServerId serversById id)
    (other : currentServerId ≠ some id) :
    ∃ nextId, Jumps serversById id nextId ∧ LeadsToCycle currentServerId serversById nextId := by
  obtain ⟨last, steps, isCycle⟩ := leads
  rcases ReflTransGen.cases_head steps with rfl | ⟨nextId, jumps, rest⟩
  · rcases isCycle with isCurrent | cycle
    · exact absurd isCurrent other
    · obtain ⟨nextId, jumps, back⟩ := TransGen.head'_iff.mp cycle
      exact ⟨nextId, jumps, id, back, .inr cycle⟩
  · exact ⟨nextId, jumps, last, rest, isCycle⟩

theorem hasJumpCycleFrom_iff {checkingId : Text} {path : List Text}
    (onPath : ∀ id ∈ path, TransGen (Jumps serversById) id checkingId) :
    hasJumpCycleFrom currentServerId serversById checkingId path = true ↔
      LeadsToCycle currentServerId serversById checkingId := by
  induction checkingId, path using hasJumpCycleFrom.induct currentServerId serversById with
  | case1 checkingId path isCurrent =>
      rw [hasJumpCycleFrom, if_pos isCurrent]
      exact iff_of_true rfl ⟨checkingId, .refl, .inl isCurrent⟩
  | case2 checkingId path other onIt =>
      rw [hasJumpCycleFrom, if_neg other, dif_pos onIt]
      exact iff_of_true rfl ⟨checkingId, .refl, .inr (onPath checkingId onIt)⟩
  | case3 checkingId path other fresh missing =>
      have isFalse : hasJumpCycleFrom currentServerId serversById checkingId path = false := by
        rw [hasJumpCycleFrom, if_neg other, dif_neg fresh]
        split
        next => rfl
        next jumpSpi held => cases missing.symm.trans held
      rw [isFalse]
      refine iff_of_false Bool.false_ne_true fun leads => ?_
      obtain ⟨-, ⟨jumpSpi, held, -⟩, -⟩ := leads.jumps other
      cases missing.symm.trans held
  | case4 checkingId path other fresh jumpSpi held inductionHypothesis =>
      have goesOn : hasJumpCycleFrom currentServerId serversById checkingId path =
          jumpSpi.resolvedJumpIds.any fun nextId =>
            hasJumpCycleFrom currentServerId serversById nextId (checkingId :: path) := by
        rw [hasJumpCycleFrom, if_neg other, dif_neg fresh]
        split
        next missing => cases missing.symm.trans held
        next another alsoHeld =>
          cases held.symm.trans alsoHeld
          rfl
      -- A server on the way to the next one: this one, or one that led to this one.
      have onNext {nextId : Text} (among : nextId ∈ jumpSpi.resolvedJumpIds) :
          ∀ id ∈ checkingId :: path, TransGen (Jumps serversById) id nextId := by
        have jumps : Jumps serversById checkingId nextId := ⟨jumpSpi, held, among⟩
        exact List.forall_mem_cons.mpr
          ⟨.single jumps, fun id isBefore => (onPath id isBefore).tail jumps⟩
      rw [goesOn, List.any_eq_true]
      constructor
      · rintro ⟨nextId, among, isTrue⟩
        exact .of_jumps ⟨jumpSpi, held, among⟩
          ((inductionHypothesis nextId (onNext among)).mp isTrue)
      · intro leads
        obtain ⟨nextId, ⟨another, alsoHeld, among⟩, rest⟩ := leads.jumps other
        cases held.symm.trans alsoHeld
        exact ⟨nextId, among, (inductionHypothesis nextId (onNext among)).mpr rest⟩

/-- The check looks at the first two candidates. -/
theorem normalizeJumpIds_eq_take {normalized : List Text} (room : normalized.length < 2)
    (ids : List Text) : normalizeJumpIds normalized ids = (addIds normalized ids).take 2 := by
  induction ids generalizing normalized with
  | nil => exact (List.take_of_length_le (Nat.le_of_lt room)).symm
  | cons id ids inductionHypothesis =>
      rw [normalizeJumpIds, addIds]
      by_cases skipped : id = [] ∨ id ∈ normalized
      · rw [if_pos skipped, if_pos skipped]
        exact inductionHypothesis room
      · rw [if_neg skipped, if_neg skipped]
        split
        next full =>
          obtain ⟨rest, isRest⟩ := prefix_addIds (normalized ++ [id]) ids
          rw [← isRest, List.take_append_of_le_length full, List.take_of_length_le]
          rw [List.length_append, List.length_singleton]
          exact room
        next notFull => exact inductionHypothesis (Nat.lt_of_not_le notFull)

theorem wouldCreateJumpCycleForCandidates_iff {candidateJumpIds : List Text} :
    wouldCreateJumpCycleForCandidates currentServerId candidateJumpIds serversById = true ↔
      ∃ candidateId ∈ (addIds [] candidateJumpIds).take 2,
        LeadsToCycle currentServerId serversById candidateId := by
  rw [wouldCreateJumpCycleForCandidates, normalizeJumpIds_eq_take (by decide), List.any_eq_true]
  refine exists_congr fun candidateId => and_congr_right fun _ => hasJumpCycleFrom_iff ?_
  exact fun _ none => nomatch none

/-- Where a candidate leads to a cycle, one of the first two does. -/
def FirstTwoTell (currentServerId : Option Text) (candidateJumpIds : List Text)
    (serversById : Table Text Spi) : Prop :=
  ∀ candidateId ∈ (addIds [] candidateJumpIds).drop 2,
    LeadsToCycle currentServerId serversById candidateId →
    ∃ earlier ∈ (addIds [] candidateJumpIds).take 2,
      LeadsToCycle currentServerId serversById earlier

theorem exact_iff {candidateJumpIds : List Text} :
    (wouldCreateJumpCycleForCandidates currentServerId candidateJumpIds serversById = true ↔
      CreatesCycle currentServerId candidateJumpIds serversById) ↔
      FirstTwoTell currentServerId candidateJumpIds serversById := by
  have isCandidate {id : Text} :
      id ∈ addIds [] candidateJumpIds ↔ id ∈ candidateJumpIds ∧ id ≠ [] :=
    mem_addIds.trans (or_iff_right List.not_mem_nil)
  rw [wouldCreateJumpCycleForCandidates_iff]
  constructor
  · intro same candidateId among leads
    obtain ⟨isOne, nonempty⟩ := isCandidate.mp (List.mem_of_mem_drop among)
    exact same.mpr ⟨candidateId, isOne, nonempty, leads⟩
  · intro tell
    constructor
    · rintro ⟨candidateId, among, leads⟩
      obtain ⟨isOne, nonempty⟩ := isCandidate.mp (List.mem_of_mem_take among)
      exact ⟨candidateId, isOne, nonempty, leads⟩
    · rintro ⟨candidateId, isOne, nonempty, leads⟩
      have among := isCandidate.mpr ⟨isOne, nonempty⟩
      rw [← List.take_append_drop 2 (addIds [] candidateJumpIds), List.mem_append] at among
      rcases among with early | late
      · exact ⟨candidateId, early, leads⟩
      · exact tell candidateId late leads

end

/-! ### Edits -/

/-- No server is filed under what stands for another's address. -/
def Named (servers : Servers) : Prop :=
  ∀ id spi other another ssh, servers.byId.lookup id = some spi →
    servers.byId.lookup other = some another → another.ssh = some ssh → id ≠ addrKey ssh

def edits : System Servers Edit :=
  System.ofNext (fun servers => Acyclic (Jumps servers.byId) ∧ Named servers) next

/-- An edit of which the first two candidates tell. -/
def Meets (servers : Servers) (edit : Edit) : Prop :=
  FirstTwoTell (some edit.id) edit.jumpIds servers.byId

/-- However far the walk is followed beyond the number of servers, it ends before, and no hop of
it finds a server a second time. -/
def WalksFree (servers : Servers) : Prop :=
  ∀ id spi, servers.byId.lookup id = some spi → ∀ hops, servers.byId.keys.length < hops →
    .cycle ∉ genClient servers.byId hops spi [] ∧ .endless ∉ genClient servers.byId hops spi []

section

variable {servers after : Servers} {edit : Edit}

/-- What an edit does when it is accepted. -/
theorem of_next (leads : next servers edit = some after) :
    wouldCreateJumpCycleForCandidates (some edit.id) edit.jumpIds servers.byId = false ∧
      ∃ spi, servers.byId.lookup edit.id = some spi ∧
        after.byId = AList.insert edit.id (Spi.withJumpIds spi edit.jumpIds) servers.byId := by
  unfold next at leads
  split at leads
  next => cases leads
  next accepted =>
    refine ⟨Bool.eq_false_iff.mpr accepted, ?_⟩
    split at leads
    next => cases leads
    next spi held =>
      cases leads
      exact ⟨spi, held, rfl⟩

theorem mem_resolvedJumpIds_withJumpIds {spi : Spi} {jumpIds : List Text} {id : Text}
    (among : id ∈ (Spi.withJumpIds spi jumpIds).resolvedJumpIds) : id ∈ addIds [] jumpIds := by
  cases held : spi.ssh with
  | none => simp [Spi.withJumpIds, Spi.resolvedJumpIds, held] at among
  | some ssh =>
      by_cases none_ : jumpIds = []
      · simp [Spi.withJumpIds, Spi.resolvedJumpIds, SshCredential.resolvedJumpIds, held, none_,
          addIds] at among
      · simp only [Spi.withJumpIds, Spi.resolvedJumpIds, SshCredential.resolvedJumpIds, held, none_,
          if_false, Option.map_some, Option.getD_some, Option.toList_none] at among
        split at among
        next isEmpty =>
          rw [isEmpty] at among
          cases among
        next => exact among

theorem acyclic_next (acyclic : Acyclic (Jumps servers.byId)) (meets : Meets servers edit)
    (leads : next servers edit = some after) : Acyclic (Jumps after.byId) := by
  obtain ⟨accepted, spi, held, isAfter⟩ := of_next leads
  rw [isAfter]
  refine @Acyclic.redirect _ _ _ edit.id acyclic ?_ ?_
  · rintro id nextId differs ⟨another, isThere, among⟩
    rw [AList.lookup_insert_ne differs] at isThere
    exact ⟨another, isThere, among⟩
  · rintro nextId ⟨another, isThere, among⟩ back
    rw [AList.lookup_insert] at isThere
    cases isThere
    have isCandidate := (mem_addIds.mp (mem_resolvedJumpIds_withJumpIds among)).resolve_left
      List.not_mem_nil
    have creates : CreatesCycle (some edit.id) edit.jumpIds servers.byId :=
      ⟨nextId, isCandidate.1, isCandidate.2, edit.id, back, .inl rfl⟩
    rw [(exact_iff.mpr meets).mpr creates] at accepted
    cases accepted

theorem named_next (named : Named servers) (leads : next servers edit = some after) :
    Named after := by
  obtain ⟨-, spi, held, isAfter⟩ := of_next leads
  -- Who is there was there, and where.
  have before {id : Text} {row : Spi} (isThere : after.byId.lookup id = some row) :
      ∃ first, servers.byId.lookup id = some first ∧
        ∀ ssh, row.ssh = some ssh → ∃ old, first.ssh = some old ∧ addrKey old = addrKey ssh := by
    rw [isAfter, Table.lookup_insert_ite] at isThere
    split at isThere
    next same =>
      cases isThere
      refine ⟨spi, same ▸ held, fun ssh isSsh => ?_⟩
      obtain ⟨old, isOld, rfl⟩ := Option.map_eq_some_iff.mp isSsh
      exact ⟨old, isOld, rfl⟩
    next => exact ⟨row, isThere, fun ssh isSsh => ⟨ssh, isSsh, rfl⟩⟩
  intro id row other another ssh isThere alsoThere isSsh
  obtain ⟨first, isFirst, -⟩ := before isThere
  obtain ⟨second, isSecond, addresses⟩ := before alsoThere
  obtain ⟨old, isOld, sameKey⟩ := addresses ssh isSsh
  exact sameKey ▸ named id first other second old isFirst isSecond isOld

/-! ### The walk -/

theorem mem_resolveJumpCandidates {table : Table Text Spi} {candidates : List Spi}
    {jumpIds : List Text} {spi : Spi}
    (among : spi ∈ resolveJumpCandidates table candidates jumpIds) :
    spi ∈ candidates ∨ ∃ jumpId ∈ jumpIds, table.lookup jumpId = some spi := by
  induction jumpIds generalizing candidates with
  | nil => exact .inl among
  | cons jumpId jumpIds inductionHypothesis =>
      have later {candidates : List Spi}
          (among : spi ∈ resolveJumpCandidates table candidates jumpIds) :
          spi ∈ candidates ∨ ∃ id ∈ jumpId :: jumpIds, table.lookup id = some spi := by
        refine (inductionHypothesis among).imp_right ?_
        rintro ⟨id, isLater, held⟩
        exact ⟨id, List.mem_cons_of_mem _ isLater, held⟩
      rw [resolveJumpCandidates] at among
      split at among
      next => exact later among
      next candidate held =>
        split at among
        next => exact later among
        next =>
          rcases later among with isFound | isLater
          · rcases List.mem_append.mp isFound with before | isCandidate
            · exact .inl before
            · rw [List.mem_singleton.mp isCandidate]
              exact .inr ⟨jumpId, List.mem_cons_self, held⟩
          · exact .inr isLater

/-- What is visited on the way to a server: servers that lead to it, and addresses. -/
def OnTheWay (servers : Servers) (visited : List Text) (id : Text) : Prop :=
  ∀ name ∈ visited, TransGen (Jumps servers.byId) name id ∨
    ∃ other another ssh, servers.byId.lookup other = some another ∧ another.ssh = some ssh ∧
      name = addrKey ssh

theorem free_genClient (acyclic : Acyclic (Jumps servers.byId)) (named : Named servers) {hops : Nat}
    {spi : Spi} {visited : List Text} (held : servers.byId.lookup spi.id = some spi)
    (way : OnTheWay servers visited spi.id)
    (far : (servers.byId.keys.filter (· ∉ visited)).length < hops) :
    ∀ failure ∈ genClient servers.byId hops spi visited, failure ≠ .cycle ∧ failure ≠ .endless := by
  induction hops generalizing spi visited with
  | zero => exact absurd far (Nat.not_lt_zero _)
  | succ hops inductionHypothesis =>
      have isId : hostKeyServerId spi = spi.id := if_pos (servers.filed _ _ held).2
      have fresh : spi.id ∉ visited := by
        intro isVisited
        rcases way _ isVisited with cycle | ⟨other, another, ssh, isThere, isSsh, isAddress⟩
        · exact acyclic _ cycle
        · exact named _ _ _ _ _ held isThere isSsh isAddress
      intro failure among
      rw [genClient] at among
      split at among
      next =>
        rw [List.mem_singleton.mp among]
        exact ⟨nofun, nofun⟩
      next ssh isSsh =>
        rw [isId, if_neg fresh] at among
        split at among
        next =>
          rw [List.mem_singleton.mp among]
          exact ⟨nofun, nofun⟩
        next =>
          simp only at among
          split at among
          next =>
            rw [List.mem_singleton.mp among]
            exact ⟨nofun, nofun⟩
          next =>
            obtain ⟨jumpSpi, isJump, isFailure⟩ := List.mem_flatMap.mp among
            obtain ⟨jumpId, isResolved, isThere⟩ :=
              (mem_resolveJumpCandidates isJump).resolve_left List.not_mem_nil
            have isOwn : jumpSpi.id = jumpId := (servers.filed _ _ isThere).1
            have jumps : Jumps servers.byId spi.id jumpSpi.id := ⟨spi, held, isOwn ▸ isResolved⟩
            refine inductionHypothesis (isOwn ▸ isThere) ?_ ?_ failure isFailure
            · refine List.forall_mem_cons.mpr ⟨.inr ⟨_, _, _, held, isSsh, rfl⟩, ?_⟩
              refine List.forall_mem_cons.mpr ⟨.inl (.single jumps), fun name isBefore => ?_⟩
              exact (way name isBefore).imp_left fun steps => steps.tail jumps
            · have shorter := visit_lt held fresh
              have fewer :
                  (servers.byId.keys.filter (· ∉ addrKey ssh :: spi.id :: visited)).length ≤
                    (servers.byId.keys.filter (· ∉ spi.id :: visited)).length := by
                refine (List.monotone_filter_right _ fun key notHere => ?_).length_le
                rw [decide_eq_true_eq] at notHere ⊢
                exact fun isThere => notHere (List.mem_cons_of_mem _ isThere)
              omega

theorem walksFree (acyclic : Acyclic (Jumps servers.byId)) (named : Named servers) :
    WalksFree servers := by
  intro id spi held hops far
  have isOwn : spi.id = id := (servers.filed id spi held).1
  have free := @free_genClient servers acyclic named hops spi [] (isOwn ▸ held)
    (fun _ none => nomatch none) (Nat.lt_of_le_of_lt (List.length_filter_le ..) far)
  exact ⟨fun isCycle => (free _ isCycle).1 rfl, fun isEndless => (free _ isEndless).2 rfl⟩

end

/-! ### Servers without jump servers -/

/-- A server at one address. -/
def bare (id : Text) : Spi := ⟨id, some ⟨"h".toList, 22, "u".toList, none, none⟩⟩

def plain : List { id : Text // id ≠ [] } → Servers
  | [] => ⟨∅, fun _ _ none => nomatch none⟩
  | id :: ids => (plain ids).put id (bare id) ⟨rfl, id.2⟩

theorem lookup_plain {ids : List { id : Text // id ≠ [] }} {id : Text} {spi : Spi}
    (held : (plain ids).byId.lookup id = some spi) : id ∈ ids.map Subtype.val ∧ spi = bare id := by
  induction ids with
  | nil => cases held
  | cons first ids inductionHypothesis =>
      change AList.lookup id (AList.insert first.val (bare first) (plain ids).byId) = _ at held
      rw [Table.lookup_insert_ite] at held
      split at held
      next same =>
        cases held
        exact ⟨same ▸ List.mem_cons_self, same ▸ rfl⟩
      next =>
        obtain ⟨among, isBare⟩ := inductionHypothesis held
        exact ⟨List.mem_cons_of_mem _ among, isBare⟩

theorem acyclic_plain (ids : List { id : Text // id ≠ [] }) :
    Acyclic (Jumps (plain ids).byId) := by
  intro id cycle
  obtain ⟨nextId, ⟨spi, held, among⟩, -⟩ := TransGen.head'_iff.mp cycle
  rw [(lookup_plain held).2] at among
  cases among

theorem named_plain {ids : List { id : Text // id ≠ [] }}
    (other : "addr:h:22".toList ∉ ids.map Subtype.val) : Named (plain ids) := by
  rintro id spi another row ssh held isThere isSsh rfl
  rw [(lookup_plain isThere).2] at isSsh
  cases isSsh
  exact other (lookup_plain held).1

/-- The check is exact for the candidates of which the first two tell, and no others; and where
every accepted edit was of such, every walk ends and finds no server twice. -/
theorem exact_and_walksFree {servers : Servers} (reached : edits.Reached Meets servers)
    (currentServerId : Option Text) (candidateJumpIds : List Text)
    (serversById : Table Text Spi) :
    ((wouldCreateJumpCycleForCandidates currentServerId candidateJumpIds serversById = true ↔
      CreatesCycle currentServerId candidateJumpIds serversById) ↔
      FirstTwoTell currentServerId candidateJumpIds serversById) ∧ WalksFree servers := by
  refine ⟨exact_iff, ?_⟩
  have initial : ∀ servers, edits.Initial servers →
      Acyclic (Jumps servers.byId) ∧ Named servers := fun _ => id
  have step : ∀ before edit after, (Acyclic (Jumps before.byId) ∧ Named before) →
      Meets before edit → edits.Step before edit after →
      Acyclic (Jumps after.byId) ∧ Named after :=
    fun _ _ _ kept meets leads => ⟨acyclic_next kept.1 meets leads, named_next kept.2 leads⟩
  obtain ⟨acyclic, named⟩ := reached.holds initial step
  exact walksFree acyclic named

/-- Of three servers one is reached through the two others. -/
theorem exact_and_walksFree_chosen :
    ∃ after, next (plain [⟨"t".toList, nofun⟩, ⟨"a".toList, nofun⟩, ⟨"b".toList, nofun⟩])
        ⟨"t".toList, ["a".toList, "b".toList]⟩ = some after ∧ WalksFree after := by
  refine ⟨_, Option.some_get (by decide +kernel) |>.symm, ?_⟩
  refine (exact_and_walksFree (.step (.initial ⟨acyclic_plain _, named_plain (by decide)⟩) ?_
    (Option.some_get _).symm) none [] ∅).2
  intro candidateId among
  cases among

/-- A walk that finds a server a second time, after an accepted edit. -/
def cycles (servers : Servers) (edit : Edit) : Bool :=
  (next servers edit).any fun after =>
    (after.byId.lookup edit.id).any fun spi => .cycle ∈ genClient after.byId 4 spi []

theorem of_cycles {servers : Servers} {edit : Edit} (isTrue : cycles servers edit = true) :
    ∃ after spi, next servers edit = some after ∧ after.byId.lookup edit.id = some spi ∧
      .cycle ∈ genClient after.byId 4 spi [] := by
  obtain ⟨after, leads, isTrue⟩ := (Option.any_eq_true _ _).mp isTrue
  obtain ⟨spi, held, isTrue⟩ := (Option.any_eq_true _ _).mp isTrue
  exact ⟨after, spi, leads, held, of_decide_eq_true isTrue⟩

/-- The third candidate is the server itself, and the check allows it; and a server is filed under
what stands for another's address. -/
theorem not_exact_third :
    (∃ candidates : List Text, ∃ servers, edits.Initial servers ∧
      wouldCreateJumpCycleForCandidates (some "t".toList) candidates servers.byId = false ∧
      CreatesCycle (some "t".toList) candidates servers.byId ∧
      ∃ after spi, next servers ⟨"t".toList, candidates⟩ = some after ∧
        after.byId.lookup "t".toList = some spi ∧ .cycle ∈ genClient after.byId 4 spi []) ∧
    ∃ servers after spi, Acyclic (Jumps servers.byId) ∧
      next servers ⟨"t".toList, ["addr:h:22".toList]⟩ = some after ∧
      Acyclic (Jumps after.byId) ∧ after.byId.lookup "t".toList = some spi ∧
      .cycle ∈ genClient after.byId 4 spi [] := by
  constructor
  · have cycle : cycles (plain [⟨"t".toList, nofun⟩, ⟨"a".toList, nofun⟩, ⟨"b".toList, nofun⟩])
        ⟨"t".toList, ["a".toList, "b".toList, "t".toList]⟩ = true := by decide +kernel
    obtain ⟨after, spi, leads, held, isCycle⟩ := of_cycles cycle
    refine ⟨_, _, ⟨acyclic_plain _, named_plain (by decide)⟩, (of_next leads).1, ?_,
      after, spi, leads, held, isCycle⟩
    exact ⟨"t".toList, by decide, by decide, "t".toList, .refl, .inl rfl⟩
  · have cycle : cycles (plain [⟨"t".toList, nofun⟩, ⟨"addr:h:22".toList, nofun⟩])
        ⟨"t".toList, ["addr:h:22".toList]⟩ = true := by decide +kernel
    obtain ⟨after, spi, leads, held, isCycle⟩ := of_cycles cycle
    refine ⟨_, after, spi, acyclic_plain _, leads, acyclic_next (acyclic_plain _) ?_ leads, held,
      isCycle⟩
    intro candidateId among
    cases among

end ServerBox.Ssh.JumpChain
