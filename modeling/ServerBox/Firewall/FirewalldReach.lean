import ServerBox.Firewall.Firewalld
import ServerBox.Firewall.UfwReach

/-!
# What firewalld's zones say of a connection

firewalld hands a connection to one zone, by its source, else its interface, else the default
one, and takes the first that decides of the zone's forwarded ports, rich rules, own entries and
target. `reach` asks the zones an access may be handled by what they know of it. What it answers
is right for every connection like the access, unless a policy decides before zones that all
refuse, or a rich rule of a zone that lets the connection in sends it away.
-/

namespace ServerBox.Firewall

open ServerBox.Std

/-! ### Settled checks -/

/-- Whether every check up to the first sure one, and what is left where none is sure, says the
same. -/
def Settled (admits : Bool) (otherwise : FirewallReach) : List Judged → Prop
  | [] => otherwise.admits = admits
  | check :: checks =>
      check.verdict.admits = admits ∧ (check.sure = true ∨ Settled admits otherwise checks)

theorem settled_iff {admits : Bool} {otherwise : FirewallReach} {checks : List Judged} :
    Settled admits otherwise checks ↔
      (∀ maybe ∈ (weigh checks).1, maybe.admits = admits) ∧
        ((weigh checks).2.getD otherwise).admits = admits := by
  induction checks with
  | nil => simp [Settled, weigh]
  | cons check checks inductionHypothesis =>
      rw [Settled, weigh]
      cases sure : check.sure with
      | true => simp
      | false => simp [inductionHypothesis, and_assoc]

/-- A verdict that is not open is one of a check, or what is left. -/
theorem mem_or_eq_of_weigh (checks : List Judged) (otherwise : FirewallReach) :
    (∃ judged ∈ checks, judged.verdict = (weigh checks).2.getD otherwise) ∨
      (weigh checks).2.getD otherwise = otherwise := by
  cases decided : (weigh checks).2 with
  | none => exact .inr rfl
  | some verdict => exact .inl (mem_of_weigh decided)

theorem decide_of_settled {admits : Bool} {otherwise : FirewallReach} {checks : List Judged}
    (settled : Settled admits otherwise checks) :
    decide checks otherwise = (weigh checks).2.getD otherwise := by
  obtain ⟨maybes, decided⟩ := settled_iff.mp settled
  exact decide_of_agree fun maybe isMaybe => (maybes maybe isMaybe).trans decided.symm

theorem settled_of_decide {otherwise : FirewallReach} {checks : List Judged}
    (known : decide checks otherwise ≠ .unknown) :
    Settled (decide checks otherwise).admits otherwise checks := by
  rw [decide] at known ⊢
  simp only at known ⊢
  split at known
  next => exact absurd rfl known
  next agree =>
      rw [if_neg agree]
      simp only [List.any_eq_true, bne_iff_ne, ne_eq, not_exists, not_and, not_not] at agree
      exact settled_iff.mpr ⟨agree, rfl⟩

theorem decide_admits_iff {otherwise : FirewallReach} {checks : List Judged} :
    (decide checks otherwise).admits = true ↔ Settled true otherwise checks := by
  constructor
  · intro admits
    have known : decide checks otherwise ≠ .unknown := fun unknown => by
      rw [unknown] at admits
      cases admits
    exact admits ▸ settled_of_decide known
  · intro settled
    rw [decide_of_settled settled]
    exact (settled_iff.mp settled).2

/-- Where no check is left open, settled to refuse is blocked. -/
theorem decide_eq_blocked_iff {otherwise : FirewallReach} {checks : List Judged}
    (known : ∀ judged ∈ checks, judged.verdict ≠ .unknown) (left : otherwise ≠ .unknown) :
    decide checks otherwise = .blocked ↔ Settled false otherwise checks := by
  constructor
  · intro blocked
    have isSettled : decide checks otherwise ≠ .unknown := by
      rw [blocked]
      nofun
    have settled := settled_of_decide isSettled
    rwa [blocked] at settled
  · intro settled
    have refuses := (settled_iff.mp settled).2
    rw [decide_of_settled settled]
    have isKnown : (weigh checks).2.getD otherwise ≠ .unknown := by
      rcases mem_or_eq_of_weigh checks otherwise with ⟨judged, isCheck, same⟩ | same
      · exact same ▸ known judged isCheck
      · rw [same]
        exact left
    revert refuses isKnown
    cases (weigh checks).2.getD otherwise <;> simp [FirewallReach.admits]

/-! ### What is asked of a connection -/

/-- Something that may decide a connection: whether it lets it in, and whether it applies. -/
structure Entry where
  admits : Bool
  applies : Bool

/-- Whether a list of entries lets a connection in: the first that applies does, else what is
left. -/
def lets (otherwise : Bool) (entries : List Entry) : Bool :=
  ((entries.find? (·.applies)).map (·.admits)).getD otherwise

/-- Whether checks are right about entries: a check is of an entry, and only a sure one that
applies, or it only might decide; an entry without one does not apply. -/
inductive Knows : List Judged → List Entry → Prop where
  | nil : Knows [] []
  | check {judged entry checks entries} (same : judged.verdict.admits = entry.admits)
      (applies : judged.sure = true → entry.applies = true) (rest : Knows checks entries) :
      Knows (judged :: checks) (entry :: entries)
  | maybe {judged checks entries} (unsure : judged.sure = false) (rest : Knows checks entries) :
      Knows (judged :: checks) entries
  | skip {entry checks entries} (applies : entry.applies = false) (rest : Knows checks entries) :
      Knows checks (entry :: entries)

namespace Knows

theorem append {front back : List Judged} {entries others : List Entry} (first : Knows front entries)
    (second : Knows back others) : Knows (front ++ back) (entries ++ others) := by
  induction first with
  | nil => exact second
  | check same applies _ inductionHypothesis => exact .check same applies inductionHypothesis
  | maybe unsure _ inductionHypothesis => exact .maybe unsure inductionHypothesis
  | skip applies _ inductionHypothesis => exact .skip applies inductionHypothesis

/-- The checks and the entries of a list, each judged and each known. -/
theorem filterMap {α : Type} {judge : α → Option Judged} {entry : α → Option Entry}
    (judged : ∀ value check, judge value = some check → ∃ known, entry value = some known ∧
      check.verdict.admits = known.admits ∧ (check.sure = true → known.applies = true))
    (dropped : ∀ value known, judge value = none → entry value = some known →
      known.applies = false)
    (values : List α) : Knows (values.filterMap judge) (values.filterMap entry) := by
  induction values with
  | nil => exact .nil
  | cons value values inductionHypothesis =>
      rw [List.filterMap_cons, List.filterMap_cons]
      cases isJudged : judge value with
      | some check =>
          obtain ⟨known, isEntry, same, applies⟩ := judged value check isJudged
          rw [isEntry]
          exact .check same applies inductionHypothesis
      | none =>
          cases isEntry : entry value with
          | none => exact inductionHypothesis
          | some known => exact .skip (dropped value known isJudged isEntry) inductionHypothesis

/-- The part of both that lets in, or that refuses. -/
theorem filter {checks : List Judged} {entries : List Entry} (knows : Knows checks entries)
    (admits : Bool) : Knows (checks.filter fun check => check.verdict.admits = admits)
      (entries.filter fun entry => entry.admits = admits) := by
  induction knows with
  | nil => exact .nil
  | @check judged entry checks entries same applies _ inductionHypothesis =>
      rw [List.filter_cons, List.filter_cons, same]
      split
      · exact .check same applies inductionHypothesis
      · exact inductionHypothesis
  | @maybe judged checks entries unsure _ inductionHypothesis =>
      rw [List.filter_cons]
      split
      · exact .maybe unsure inductionHypothesis
      · exact inductionHypothesis
  | @skip entry checks entries applies _ inductionHypothesis =>
      rw [List.filter_cons (x := entry)]
      split
      · exact .skip applies inductionHypothesis
      · exact inductionHypothesis

/-- Settled checks say what the entries do. -/
theorem lets_eq {checks : List Judged} {entries : List Entry} {admits : Bool}
    {otherwise : FirewallReach} (knows : Knows checks entries)
    (settled : Settled admits otherwise checks) : lets otherwise.admits entries = admits := by
  induction knows with
  | nil => exact settled
  | @check judged entry checks entries same applies _ inductionHypothesis =>
      obtain ⟨agrees, decides⟩ := settled
      cases isApplied : entry.applies with
      | true =>
          rw [← agrees, same]
          simp [lets, isApplied]
      | false =>
          rcases decides with sure | rest
          · rw [applies sure] at isApplied
            cases isApplied
          · simpa [lets, isApplied] using inductionHypothesis rest
  | maybe unsure _ inductionHypothesis =>
      rcases settled.2 with sure | rest
      · rw [unsure] at sure
        cases sure
      · exact inductionHypothesis rest
  | @skip entry checks entries applies _ inductionHypothesis =>
      simpa [lets, applies] using inductionHypothesis settled

end Knows

/-! ### Connections -/

/-- What a snapshot does not say of a connection: what is in an ipset, whose a MAC is, a text
that is no network, a service that has no definition, a rule's source port. -/
structure FirewalldKernel where
  zoneSource : Text → Connection → Bool
  ruleSource : FirewalldRichRule → Connection → Bool
  network : Text → IpAddr → Bool
  service : Option Text → Nat → Bool
  sourcePort : FirewalldRichRule → Nat → Bool

/-- The attributes after a word, up to the next. -/
def attributesOf (word : String) : List RichToken → List (Text × Text)
  | [] => []
  | .word text :: tokens =>
      if text = word.toList then
        (tokens.takeWhile fun token => token matches .attribute _ _).filterMap fun
          | .attribute name value => some (name, value)
          | .word _ => none
      else attributesOf word tokens
  | .attribute _ _ :: tokens => attributesOf word tokens

/-- Whether a rule's text forwards the TCP connections to a port. -/
def FirewalldRichRule.forwardsPort (rule : FirewalldRichRule) (port : Nat) : Bool :=
  let attributes := attributesOf "forward-port" (richTokens rule.raw.length rule.raw)
  rule.element = some "forward-port".toList &&
    attributes.lookup "protocol".toList = some tcp &&
    (attributes.lookup "port".toList).any fun spec => portSpecCovers (some spec) port

/-- What becomes of a connection; one that is sent away is not let in. -/
inductive Answer where
  | admitted
  | refused
  | sentAway
deriving DecidableEq, Repr

namespace FirewalldKernel

variable (kernel : FirewalldKernel) (services : FirewalldServices) (connection : Connection)

def endMatches (network : Option Text) (isNot : Bool) (address : IpAddr) : Bool :=
  network.all fun network =>
    ((networkContains network address).getD (kernel.network network address)) != isNot

/-- Whether a rule's family and its ends are a connection's. -/
def endsMatch (rule : FirewalldRichRule) : Bool :=
  rule.family.all (· = FirewalldRichRule.familyName connection.client) &&
    (!rule.sourceOther || kernel.ruleSource rule connection) &&
    kernel.endMatches rule.source rule.sourceNot connection.client &&
    kernel.endMatches rule.destination rule.destinationNot connection.server

/-- Whether a service takes a port. -/
def serviceCovers (name : Option Text) : Bool :=
  match name.bind (services.lookup ·) with
  | some ports => ports.any (·.covers connection.port tcp)
  | none => kernel.service name connection.port

def elementMatches (rule : FirewalldRichRule) : Bool :=
  match rule.element with
  | none => true
  | some element =>
      if element = "service".toList then kernel.serviceCovers services connection rule.service
      else if element = "port".toList then
        rule.protocol = some tcp && portSpecCovers rule.port connection.port
      else if element = "protocol".toList then rule.protocol = some tcp
      else if element = "source-port".toList then kernel.sourcePort rule connection.clientPort
      else false

/-- Whether a rule decides a connection. -/
def ruleMatches (rule : FirewalldRichRule) : Bool :=
  kernel.endsMatch connection rule && kernel.elementMatches services connection rule

/-- Whether a rule sends a connection to another port or host. -/
def ruleSendsAway (rule : FirewalldRichRule) : Bool :=
  kernel.endsMatch connection rule && rule.forwardsPort connection.port

def ruleEntry (rule : FirewalldRichRule) : Option Entry :=
  rule.verdict.map fun verdict => ⟨verdict.admits, kernel.ruleMatches services connection rule⟩

/-- The rules of a zone of some priorities. -/
def rules (zone : FirewalldZone) (pick : Int → Bool) : List Entry :=
  (zone.sorted.filter fun rule => pick rule.priority).filterMap
    (kernel.ruleEntry services connection)

/-- The zone's own protocols, ports, services and source ports. -/
def ownEntry (zone : FirewalldZone) : Entry where
  admits := true
  applies := zone.protocols.any (· = tcp) || zone.ports.any (·.covers connection.port tcp) ||
    zone.services.any (fun name => kernel.serviceCovers services connection (some name)) ||
    zone.sourcePorts.any (·.covers connection.clientPort tcp)

/-- What a zone asks of a connection: the rules below 0, at 0 the refusals, the zone's own entries
and the accepts, then the rules above 0. -/
def entries (zone : FirewalldZone) : List Entry :=
  kernel.rules services connection zone (· < 0) ++
    (kernel.rules services connection zone (· = 0)).filter (fun entry => entry.admits = false) ++
    [kernel.ownEntry services connection zone] ++
    (kernel.rules services connection zone (· = 0)).filter (fun entry => entry.admits = true) ++
    kernel.rules services connection zone (0 < ·)

/-- Whether a zone forwards a connection, by a forwarded port of its own or of a rich rule. -/
def sendsAway (zone : FirewalldZone) : Bool :=
  zone.forwardPorts.any (forwards connection.port) ||
    zone.richRules.any (kernel.ruleSendsAway connection)

/-- What a zone may answer. -/
inductive ZoneAnswers (zone : FirewalldZone) : Answer → Prop where
  | sent (forwarded : kernel.sendsAway connection zone = true) : ZoneAnswers zone .sentAway
  | asked : ZoneAnswers zone
      (if lets (zone.target = .accept) (kernel.entries services connection zone) then .admitted
      else .refused)

/-- Whether a zone's sources hold a connection's client. -/
def holdsSource (zone : FirewalldZone) : Bool :=
  zone.sources.any fun source =>
    (networkContains source connection.client).getD (kernel.zoneSource source connection)

/-- The zone that takes a connection: one whose sources hold the client, else the interface's,
else the default one. -/
inductive Handles (zones : List FirewalldZone) (defaultZone : Option Text) :
    FirewalldZone → Prop where
  | bySource {zone} (isZone : zone ∈ zones) (held : kernel.holdsSource connection zone = true) :
      Handles zones defaultZone zone
  | byInterface {zone} (unheld : ∀ zone ∈ zones, kernel.holdsSource connection zone = false)
      (isZone : zone ∈ zones) (bound : connection.iface ∈ zone.interfaces) :
      Handles zones defaultZone zone
  | byDefault {zone} (unheld : ∀ zone ∈ zones, kernel.holdsSource connection zone = false)
      (unbound : ∀ zone ∈ zones, connection.iface ∉ zone.interfaces)
      (isDefault : zones.find? (fun zone => some zone.name = defaultZone) = some zone) :
      Handles zones defaultZone zone

end FirewalldKernel

namespace FirewalldSnapshot

variable (snapshot : FirewalldSnapshot) (access : FirewallAccess)

/-- What may become of a connection: everything is let in while the daemon is down and nothing in
panic mode; a policy that decides may let it in or refuse it; else its zone answers. -/
inductive Answers (kernel : FirewalldKernel) (connection : Connection) : Answer → Prop where
  | stopped (down : snapshot.running = false) : Answers kernel connection .admitted
  | panicked (running : snapshot.running = true) (panic : snapshot.panic = true) :
      Answers kernel connection .refused
  | byPolicy {answer} (running : snapshot.running = true) (calm : snapshot.panic = false)
      (decides : snapshot.policyDecides = true) (notSent : answer ≠ .sentAway) :
      Answers kernel connection answer
  | byZone {zone answer} (running : snapshot.running = true) (calm : snapshot.panic = false)
      (handles : kernel.Handles connection snapshot.zones snapshot.defaultZone zone)
      (answers : kernel.ZoneAnswers snapshot.services connection zone answer) :
      Answers kernel connection answer

/-- The verdict on an access. -/
def verdict : FirewallReach := snapshot.reach access none none none none

/-- Whether the verdict on an access is right for every connection like it. -/
def Sound : Prop :=
  ∀ (kernel : FirewalldKernel) (connection : Connection), connection.Like access →
    ∀ answer, snapshot.Answers kernel connection answer →
      ((snapshot.verdict access).admits = true → answer = .admitted) ∧
      (snapshot.verdict access = .blocked → answer ≠ .admitted)

/-- Whether every zone that the access may be handled by is settled to let it in, or to refuse
it, and there is one. -/
def ZonesSettled (admits : Bool) : Prop :=
  snapshot.zonesFor access none none ≠ [] ∧
    ∀ zone ∈ snapshot.zonesFor access none none,
      Settled admits zone.fallback (zone.checks access snapshot.services)

/-- Whether the zones refuse a connection that a policy may let in. -/
def ShutToPolicy : Prop :=
  snapshot.running = true ∧ snapshot.panic = false ∧ snapshot.policyDecides = true ∧
    snapshot.ZonesSettled access false ∧ ∃ connection : Connection, connection.Like access

/-- Whether the zones let in a connection that a rich rule of its zone may send away. -/
def OpenToForward : Prop :=
  snapshot.running = true ∧ snapshot.panic = false ∧ snapshot.policyDecides = false ∧
    snapshot.ZonesSettled access true ∧
    ∃ (kernel : FirewalldKernel) (connection : Connection) (zone : FirewalldZone),
      connection.Like access ∧
      kernel.Handles connection snapshot.zones snapshot.defaultZone zone ∧
      ∃ rule ∈ zone.richRules, kernel.ruleSendsAway connection rule = true

end FirewalldSnapshot

/-! ### One rule -/

/-- Whether what is known of a fact is right. -/
def Right (known : Option Bool) (fact : Bool) : Prop := ∀ holds, known = some holds → holds = fact

theorem all_of_sure {known : List (Option Bool)} {facts : List Bool}
    (right : List.Forall₂ Right known facts) (possible : some false ∉ known)
    (sure : known.all Option.isSome = true) : facts.all id = true := by
  induction right with
  | nil => rfl
  | @cons known fact knowns facts isRight _ inductionHypothesis =>
      rw [List.all_cons, Bool.and_eq_true] at sure
      rw [List.mem_cons, not_or] at possible
      obtain ⟨holds, isHolds⟩ := Option.isSome_iff_exists.mp sure.1
      have isTrue : holds = true := by
        cases holds with
        | true => rfl
        | false => exact absurd isHolds.symm possible.1
      have isFact : fact = true := (isRight holds isHolds).symm.trans isTrue
      rw [List.all_cons, isFact, inductionHypothesis possible.2 sure.2]
      rfl

theorem not_all_of_mem {known : List (Option Bool)} {facts : List Bool}
    (right : List.Forall₂ Right known facts) (impossible : some false ∈ known) :
    facts.all id = false := by
  induction right with
  | nil => cases impossible
  | @cons known fact knowns facts isRight _ inductionHypothesis =>
      rw [List.all_cons]
      rcases List.mem_cons.mp impossible with same | later
      · rw [← isRight false same.symm]
        rfl
      · rw [inductionHypothesis later, Bool.and_false]

theorem right_some (fact : Bool) : Right (some fact) fact :=
  fun _ same => (Option.some.inj same).symm

theorem right_none (fact : Bool) : Right none fact := nofun

section Like

variable (kernel : FirewalldKernel) (services : FirewalldServices) {access : FirewallAccess}
  {connection : Connection} (like : connection.Like access)

theorem right_holds {known : Option IpAddr} {address : IpAddr}
    (same : ∀ ip, known = some ip → ip = address) (network : Text) (otherwise : Bool) :
    Right (holds network known) ((networkContains network address).getD otherwise) := by
  cases known with
  | none => exact right_none _
  | some ip =>
      obtain rfl := same ip rfl
      intro held isHeld
      have contains : networkContains network ip = some held := isHeld
      rw [contains]
      rfl

theorem right_endHolds {known : Option IpAddr} {address : IpAddr}
    (same : ∀ ip, known = some ip → ip = address) (network : Option Text) (isNot : Bool) :
    Right (FirewalldRichRule.endHolds network isNot known)
      (kernel.endMatches network isNot address) := by
  cases network with
  | none => exact right_some true
  | some network =>
      intro held isHeld
      obtain ⟨contains, isContained, rfl⟩ := Option.map_eq_some_iff.mp isHeld
      rw [right_holds same network (kernel.network network address) contains isContained]
      rfl

include like

theorem right_familyHolds (family : Option Text) :
    Right (FirewalldRichRule.familyHolds family access.clientIp)
      (family.all (· = FirewalldRichRule.familyName connection.client)) := by
  cases family with
  | none => cases access.clientIp <;> exact right_some true
  | some family =>
      cases isClient : access.clientIp with
      | none => exact right_none _
      | some client =>
          obtain rfl := like.client client isClient
          exact right_some _

theorem right_elementHolds (rule : FirewalldRichRule) :
    Right (rule.elementHolds services access.port)
      (kernel.elementMatches services connection rule) := by
  rw [FirewalldRichRule.elementHolds, FirewalldKernel.elementMatches, ← like.port]
  cases rule.element with
  | none => exact right_some true
  | some element =>
      simp only
      split
      · rw [FirewalldKernel.serviceCovers]
        cases rule.service.bind (services.lookup ·) with
        | none => exact right_none _
        | some ports => exact right_some _
      · split
        · exact right_some _
        · split
          · exact right_some _
          · split
            · exact right_none _
            · exact right_some _

/-- What a connection is, asked what `judge` asks of an access. -/
theorem right_questions (rule : FirewalldRichRule) :
    ∃ facts, List.Forall₂ Right (rule.questions access services) facts ∧
      kernel.ruleMatches services connection rule = facts.all id := by
  refine ⟨[rule.family.all (· = FirewalldRichRule.familyName connection.client),
    !rule.sourceOther || kernel.ruleSource rule connection,
    kernel.endMatches rule.source rule.sourceNot connection.client,
    kernel.endMatches rule.destination rule.destinationNot connection.server,
    kernel.elementMatches services connection rule], ?_, ?_⟩
  · refine .cons (right_familyHolds like _) (.cons ?_ (.cons (right_endHolds kernel like.client _ _)
      (.cons (right_endHolds kernel like.server _ _)
        (.cons (right_elementHolds kernel services like rule) .nil))))
    cases rule.sourceOther with
    | true => exact right_none _
    | false => exact right_some true
  · simp [FirewalldKernel.ruleMatches, FirewalldKernel.endsMatch, Bool.and_assoc]

theorem ruleEntry_of_judge {rule : FirewalldRichRule} {judged : Judged}
    (isJudged : rule.judge access services = some judged) :
    ∃ known, kernel.ruleEntry services connection rule = some known ∧
      judged.verdict.admits = known.admits ∧ (judged.sure = true → known.applies = true) := by
  obtain ⟨facts, right, doesMatch⟩ := right_questions kernel services like rule
  rw [FirewalldRichRule.judge] at isJudged
  obtain ⟨verdict, isVerdict, isJudged⟩ := Option.bind_eq_some_iff.mp isJudged
  rw [Option.ite_none_left_eq_some] at isJudged
  obtain ⟨possible, rfl⟩ := isJudged.imp_right Option.some.inj
  refine ⟨_, by rw [FirewalldKernel.ruleEntry, isVerdict]; rfl, rfl, fun sure => ?_⟩
  exact doesMatch.trans (all_of_sure right possible sure)

theorem applies_of_judge {rule : FirewalldRichRule} {known : Entry}
    (notJudged : rule.judge access services = none)
    (isEntry : kernel.ruleEntry services connection rule = some known) : known.applies = false := by
  obtain ⟨facts, right, doesMatch⟩ := right_questions kernel services like rule
  obtain ⟨verdict, isVerdict, rfl⟩ := Option.map_eq_some_iff.mp isEntry
  rw [FirewalldRichRule.judge, isVerdict] at notJudged
  simp only [Option.bind_eq_bind, Option.bind_some, ite_eq_left_iff, reduceCtorEq, imp_false,
    not_not] at notJudged
  exact doesMatch.trans (not_all_of_mem right notJudged)

/-! ### One zone -/

theorem knows_judged (zone : FirewalldZone) (pick : Int → Bool) :
    Knows (zone.judged access services pick) (kernel.rules services connection zone pick) :=
  .filterMap (fun _ _ isJudged => ruleEntry_of_judge kernel services like isJudged)
    (fun _ _ notJudged isEntry => applies_of_judge kernel services like notJudged isEntry) _

omit like in
/-- A zone's own entries that apply are let in for sure, or one there is no definition of or by a
source port may be. -/
theorem own_applies (zone : FirewalldZone) :
    (zone.admitted services connection.port = true →
      (kernel.ownEntry services connection zone).applies = true) ∧
    ((kernel.ownEntry services connection zone).applies = true →
      zone.admitted services connection.port = true ∨
      (zone.services.any fun name => name ∉ services) = true ∨
      (zone.sourcePorts.any fun spec => spec.protocol = tcp) = true) := by
  constructor
  · intro isAdmitted
    simp only [FirewalldZone.admitted, Bool.or_eq_true] at isAdmitted
    simp only [FirewalldKernel.ownEntry, Bool.or_eq_true]
    rcases isAdmitted with (byProtocol | byPort) | byService
    · exact .inl (.inl (.inl byProtocol))
    · exact .inl (.inl (.inr byPort))
    · left
      right
      obtain ⟨entry, isEntry, covers⟩ := List.any_eq_true.mp byService
      rw [Bool.and_eq_true, decide_eq_true_eq] at covers
      have found : services.lookup entry.1 = some entry.2 := AList.mem_lookup_iff.mpr isEntry
      refine List.any_eq_true.mpr ⟨entry.1, covers.1, ?_⟩
      rw [FirewalldKernel.serviceCovers, Option.bind_some, found]
      exact covers.2
  · intro applies
    simp only [FirewalldKernel.ownEntry, Bool.or_eq_true] at applies
    simp only [FirewalldZone.admitted, Bool.or_eq_true]
    rcases applies with ((byProtocol | byPort) | byService) | bySource
    · exact .inl (.inl (.inl byProtocol))
    · exact .inl (.inl (.inr byPort))
    · obtain ⟨name, isNamed, covers⟩ := List.any_eq_true.mp byService
      rw [FirewalldKernel.serviceCovers, Option.bind_some] at covers
      cases found : services.lookup name with
      | none =>
          right
          left
          refine List.any_eq_true.mpr ⟨name, isNamed, ?_⟩
          rw [decide_eq_true_eq]
          exact AList.lookup_eq_none.mp found
      | some ports =>
          rw [found] at covers
          left
          right
          refine List.any_eq_true.mpr ⟨⟨name, ports⟩, AList.mem_lookup_iff.mp found, ?_⟩
          rw [Bool.and_eq_true, decide_eq_true_eq]
          exact ⟨isNamed, covers⟩
    · right
      right
      obtain ⟨spec, isSpec, covers⟩ := List.any_eq_true.mp bySource
      rw [FirewalldPort.covers, Bool.and_eq_true] at covers
      exact List.any_eq_true.mpr ⟨spec, isSpec, covers.1⟩

theorem knows_ownChecks (zone : FirewalldZone) :
    Knows (zone.ownChecks services access.port) [kernel.ownEntry services connection zone] := by
  have maybe (test : Bool) : Knows (if test then [⟨.open, false⟩] else []) [] := by
    cases test with
    | true => exact .maybe rfl .nil
    | false => exact .nil
  obtain ⟨surely, onlyIf⟩ := own_applies kernel services zone
  rw [FirewalldZone.ownChecks, ← like.port]
  cases isAdmitted : zone.admitted services connection.port with
  | true => exact .check rfl (fun _ => surely isAdmitted) ((maybe _).append (maybe _))
  | false =>
      cases applies : (kernel.ownEntry services connection zone).applies with
      | false => exact .skip applies ((maybe _).append (maybe _))
      | true =>
          rcases onlyIf applies with admitted | undefined | bySource
          · rw [isAdmitted] at admitted
            cases admitted
          · rw [undefined]
            exact .check rfl nofun (maybe _)
          · rw [bySource]
            exact (maybe _).append (.check rfl nofun .nil)

omit like

theorem FirewalldRichRule.ne_unknown_of_judge {rule : FirewalldRichRule} {judged : Judged}
    (isJudged : rule.judge access services = some judged) : judged.verdict ≠ .unknown := by
  rw [judge] at isJudged
  obtain ⟨verdict, isVerdict, isJudged⟩ := Option.bind_eq_some_iff.mp isJudged
  rw [Option.ite_none_left_eq_some] at isJudged
  obtain ⟨-, rfl⟩ := isJudged.imp_right Option.some.inj
  rw [FirewalldRichRule.verdict] at isVerdict
  split at isVerdict
  · obtain rfl := Option.some.inj isVerdict
    split <;> nofun
  · rw [Option.ite_none_right_eq_some] at isVerdict
    obtain rfl := Option.some.inj isVerdict.2
    nofun

theorem ne_unknown_of_judged (access : FirewallAccess) {zone : FirewalldZone} {pick : Int → Bool}
    {judged : Judged} (isJudged : judged ∈ zone.judged access services pick) :
    judged.verdict ≠ .unknown := by
  obtain ⟨rule, -, isJudged⟩ := List.mem_filterMap.mp isJudged
  exact rule.ne_unknown_of_judge services isJudged

theorem ne_unknown_of_checks (access : FirewallAccess) (zone : FirewalldZone) {judged : Judged}
    (isCheck : judged ∈ zone.checks access services) : judged.verdict ≠ .unknown := by
  simp only [FirewalldZone.checks, FirewalldZone.ownChecks, List.mem_append, List.mem_filter,
    List.mem_map] at isCheck
  have ofOwn {test : Bool} {sure : Bool}
      (own : judged ∈ if test then [(⟨.open, sure⟩ : Judged)] else []) :
      judged.verdict ≠ .unknown := by
    cases test with
    | true =>
        obtain rfl := List.mem_singleton.mp own
        nofun
    | false => cases own
  rcases isCheck with ((((⟨_, _, rfl⟩ | below) | refuses) | ((own | own) | own)) | accepts) | above
  · nofun
  · exact ne_unknown_of_judged services access below
  · exact ne_unknown_of_judged services access refuses.1
  · exact ofOwn own
  · exact ofOwn own
  · exact ofOwn own
  · exact ne_unknown_of_judged services access accepts.1
  · exact ne_unknown_of_judged services access above

/-- What a judged rule says: it refuses just when it is blocked. -/
theorem filter_judged (access : FirewallAccess) (zone : FirewalldZone) (pick : Int → Bool) :
    ((zone.judged access services pick).filter fun check => check.verdict = .blocked) =
      (zone.judged access services pick).filter (fun check => check.verdict.admits = false) ∧
    ((zone.judged access services pick).filter fun check => check.verdict ≠ .blocked) =
      (zone.judged access services pick).filter (fun check => check.verdict.admits = true) := by
  have same : ∀ check ∈ zone.judged access services pick,
      (check.verdict = .blocked ↔ check.verdict.admits = false) := by
    intro check isCheck
    have known := ne_unknown_of_judged services access isCheck
    cases isVerdict : check.verdict <;> simp_all [FirewallReach.admits]
  constructor
  · refine List.filter_congr fun check isCheck => ?_
    rw [decide_eq_decide]
    exact same check isCheck
  · refine List.filter_congr fun check isCheck => ?_
    rw [decide_eq_decide, ne_eq, same check isCheck, Bool.not_eq_false]

include like

theorem knows_checks (zone : FirewalldZone) :
    Knows (zone.checks access services) (kernel.entries services connection zone) := by
  have forwarded (specs : List Text) :
      Knows (specs.map fun _ => (⟨.blocked, false⟩ : Judged)) [] := by
    induction specs with
    | nil => exact .nil
    | cons spec specs inductionHypothesis => exact .maybe rfl inductionHypothesis
  have judged (pick : Int → Bool) := knows_judged kernel services like zone pick
  have whole := (((((forwarded (zone.forwardPorts.filter (forwards access.port))).append
    (judged (· < 0))).append ((judged (· = 0)).filter false)).append
    (knows_ownChecks kernel services like zone)).append ((judged (· = 0)).filter true)).append
    (judged (0 < ·))
  obtain ⟨refusals, accepts⟩ := filter_judged services access zone (· = 0)
  rw [FirewalldZone.checks]
  rw [refusals, accepts]
  simpa [FirewalldKernel.entries] using whole

/-- A zone that is settled answers so, if it does not send the connection away. -/
theorem zoneAnswers_of_settled {zone : FirewalldZone} {admits : Bool} {answer : Answer}
    (settled : Settled admits zone.fallback (zone.checks access services))
    (answers : kernel.ZoneAnswers services connection zone answer) :
    answer = (if admits then .admitted else .refused) ∨
      (answer = .sentAway ∧ kernel.sendsAway connection zone = true) := by
  cases answers with
  | sent forwarded => exact .inr ⟨rfl, forwarded⟩
  | asked =>
      left
      have left : zone.fallback.admits = Decidable.decide (zone.target = .accept) := by
        rw [FirewalldZone.fallback]
        cases zone.target <;> rfl
      have isLet := (knows_checks kernel services like zone).lets_eq settled
      rw [left] at isLet
      rw [isLet]

/-- A zone that is settled to let in forwards nothing of its own. -/
theorem not_forwards_of_settled {zone : FirewalldZone}
    (settled : Settled true zone.fallback (zone.checks access services)) :
    zone.forwardPorts.any (forwards connection.port) = false := by
  rw [like.port, List.any_eq_false]
  intro spec isSpec forwarded
  have kept : spec ∈ zone.forwardPorts.filter (forwards access.port) :=
    List.mem_filter.mpr ⟨isSpec, forwarded⟩
  rw [FirewalldZone.checks] at settled
  cases forwardsOf : zone.forwardPorts.filter (forwards access.port) with
  | nil => rw [forwardsOf] at kept; cases kept
  | cons first others =>
      rw [forwardsOf] at settled
      exact absurd settled.1 nofun

end Like

/-! ### The zones of an access -/

namespace FirewalldSnapshot

theorem mem_placesOf {zones : List FirewalldZone} (test : FirewalldZone → Bool) {place : Nat}
    {zone : FirewalldZone} (isZone : zones[place]? = some zone) (passes : test zone = true) :
    place ∈ placesOf zones test := by
  have within : place < zones.length := (List.getElem?_eq_some_iff.mp isZone).1
  rw [placesOf, List.mem_filter, List.mem_range, isZone]
  exact ⟨within, passes⟩

theorem of_mem_placesOf {zones : List FirewalldZone} {test : FirewalldZone → Bool} {place : Nat}
    (isPlace : place ∈ placesOf zones test) :
    ∃ zone, zones[place]? = some zone ∧ test zone = true := by
  have passes := (List.mem_filter.mp isPlace).2
  cases isZone : zones[place]? with
  | none =>
      rw [isZone] at passes
      cases passes
  | some zone =>
      rw [isZone] at passes
      exact ⟨zone, rfl, passes⟩

theorem mem_distinct {places : List Nat} {place : Nat} :
    place ∈ distinct places ↔ place ∈ places := by
  have kept : ∀ (places kept : List Nat), place ∈ places.foldl
      (fun kept place => if place ∈ kept then kept else kept ++ [place]) kept ↔
      place ∈ kept ∨ place ∈ places := by
    intro places
    induction places with
    | nil => simp
    | cons first places inductionHypothesis =>
        intro kept
        rw [List.foldl_cons, inductionHypothesis]
        split
        next already =>
            rw [List.mem_cons]
            refine ⟨fun held => held.imp_right .inr, ?_⟩
            rintro (held | rfl | held)
            · exact .inl held
            · exact .inl already
            · exact .inr held
        next => simp [or_assoc]
  rw [distinct, kept]
  simp

end FirewalldSnapshot

section Like

variable (kernel : FirewalldKernel) {access : FirewallAccess} {connection : Connection}
  (like : connection.Like access)

include like

/-- A zone whose sources hold a client is known to, or has a source that is not known. -/
theorem known_of_holdsSource {zone : FirewalldZone}
    (held : kernel.holdsSource connection zone = true) :
    zone.sources.any (holds · access.clientIp = some true) = true ∨
      zone.sources.any (holds · access.clientIp = none) = true := by
  obtain ⟨source, isSource, holdsClient⟩ := List.any_eq_true.mp held
  have right := right_holds like.client source (kernel.zoneSource source connection)
  cases known : holds source access.clientIp with
  | none => exact .inr (List.any_eq_true.mpr ⟨source, isSource, by rw [known]; rfl⟩)
  | some contains =>
      have isTrue : contains = true := (right contains known).trans holdsClient
      refine .inl (List.any_eq_true.mpr ⟨source, isSource, ?_⟩)
      rw [known, isTrue]
      rfl

theorem unheld_of_holdsSource {zone : FirewalldZone}
    (unheld : kernel.holdsSource connection zone = false) :
    zone.sources.any (holds · access.clientIp = some true) = false := by
  rw [List.any_eq_false]
  intro source isSource holdsClient
  have known : holds source access.clientIp = some true := of_decide_eq_true holdsClient
  have isTrue := right_holds like.client source (kernel.zoneSource source connection) true known
  rw [FirewalldKernel.holdsSource, List.any_eq_false] at unheld
  exact unheld source isSource isTrue.symm

/-- The zone that takes a connection is one the access may be handled by. -/
theorem mem_zonesFor {snapshot : FirewalldSnapshot} {zone : FirewalldZone}
    (handles : kernel.Handles connection snapshot.zones snapshot.defaultZone zone) :
    zone ∈ snapshot.zonesFor access none none := by
  suffices ∃ place, place ∈ FirewalldSnapshot.candidates access snapshot.zones
      snapshot.defaultZone ∧ snapshot.zones[place]? = some zone from
    List.mem_filterMap.mpr this
  have noSource (unheld : ∀ zone ∈ snapshot.zones, kernel.holdsSource connection zone = false) :
      FirewalldSnapshot.placesOf snapshot.zones (fun zone =>
        zone.sources.any (holds · access.clientIp = some true)) = [] := by
    rw [List.eq_nil_iff_forall_not_mem]
    intro place isPlace
    obtain ⟨zone, isZone, holdsClient⟩ := FirewalldSnapshot.of_mem_placesOf isPlace
    rw [unheld_of_holdsSource kernel like (unheld zone (List.mem_of_getElem? isZone))] at holdsClient
    cases holdsClient
  cases handles with
  | bySource isZone held =>
      obtain ⟨place, isPlace⟩ := List.mem_iff_getElem?.mp isZone
      refine ⟨place, ?_, isPlace⟩
      rw [FirewalldSnapshot.candidates]
      rcases known_of_holdsSource kernel like held with known | unknown
      · have inSources := FirewalldSnapshot.mem_placesOf (fun zone =>
          zone.sources.any (holds · access.clientIp = some true)) isPlace known
        simp only
        split
        · exact inSources
        · exact FirewalldSnapshot.mem_distinct.mpr (by simp only [List.mem_append]; tauto)
      · have sourceUnknown : (snapshot.zones.any fun zone =>
            zone.sources.any (holds · access.clientIp = none)) = true :=
          List.any_eq_true.mpr ⟨zone, isZone, unknown⟩
        have some : (!zone.sources.isEmpty) = true := by
          obtain ⟨source, isSource, -⟩ := List.any_eq_true.mp unknown
          cases sources : zone.sources with
          | nil => rw [sources] at isSource; cases isSource
          | cons => rfl
        have inUnknown := FirewalldSnapshot.mem_placesOf (fun zone => !zone.sources.isEmpty) isPlace some
        simp only [sourceUnknown, Bool.not_true, Bool.and_false, Bool.false_eq_true, if_false,
          if_true]
        exact FirewalldSnapshot.mem_distinct.mpr (by simp only [List.mem_append]; tauto)
  | byInterface unheld isZone bound =>
      obtain ⟨place, isPlace⟩ := List.mem_iff_getElem?.mp isZone
      refine ⟨place, ?_, isPlace⟩
      have mayBe : FirewalldSnapshot.mayHave access.iface zone = true := by
        cases isIface : access.iface with
        | none =>
            rw [FirewalldSnapshot.mayHave]
            cases interfaces : zone.interfaces with
            | nil => rw [interfaces] at bound; cases bound
            | cons => rfl
        | some name =>
            rw [like.iface name isIface]
            exact decide_eq_true bound
      have inInterface := FirewalldSnapshot.mem_placesOf _ isPlace mayBe
      rw [FirewalldSnapshot.candidates]
      simp only [noSource unheld, List.isEmpty_nil, Bool.not_true, Bool.false_and,
        Bool.false_eq_true, if_false]
      exact FirewalldSnapshot.mem_distinct.mpr (by simp only [List.mem_append]; tauto)
  | byDefault unheld unbound isDefault =>
      rw [List.find?_eq_bind_findIdx?_getElem?] at isDefault
      obtain ⟨place, isFound, isPlace⟩ := Option.bind_eq_some_iff.mp isDefault
      refine ⟨place, ?_, isPlace⟩
      have asked : (access.iface.isNone || (FirewalldSnapshot.placesOf snapshot.zones
          (FirewalldSnapshot.mayHave access.iface)).isEmpty) = true := by
        cases isIface : access.iface with
        | none => rfl
        | some name =>
            rw [Option.isNone_some, Bool.false_or, List.isEmpty_iff,
              List.eq_nil_iff_forall_not_mem]
            intro place isPlace
            obtain ⟨zone, isZone, bound⟩ := FirewalldSnapshot.of_mem_placesOf isPlace
            rw [like.iface name isIface] at bound
            exact unbound zone (List.mem_of_getElem? isZone) (of_decide_eq_true bound)
      rw [FirewalldSnapshot.candidates]
      simp only [noSource unheld, List.isEmpty_nil, Bool.not_true, Bool.false_and,
        Bool.false_eq_true, if_false, asked, if_true, isFound]
      exact FirewalldSnapshot.mem_distinct.mpr (by simp)

end Like

/-! ### The verdict -/

namespace FirewalldSnapshot

theorem together_admits_iff {reaches : List FirewallReach} :
    (together reaches).admits = true ↔
      reaches ≠ [] ∧ ∀ reach ∈ reaches, reach.admits = true := by
  cases reaches with
  | nil => simp [together, FirewallReach.admits]
  | cons first reaches =>
      rw [together]
      split
      next same =>
          rw [List.all_eq_true] at same
          constructor
          · intro admits
            refine ⟨List.cons_ne_nil _ _, fun reach isReach => ?_⟩
            rcases List.mem_cons.mp isReach with rfl | later
            · exact admits
            · exact (of_decide_eq_true (same reach later)) ▸ admits
          · exact fun all => all.2 first List.mem_cons_self
      next =>
          split
          next all => exact ⟨fun _ => ⟨List.cons_ne_nil _ _, List.all_eq_true.mp all⟩, fun _ => rfl⟩
          next some =>
              constructor
              · nofun
              · exact fun all => absurd (List.all_eq_true.mpr all.2) some

theorem together_eq_blocked_iff {reaches : List FirewallReach} :
    together reaches = .blocked ↔ reaches ≠ [] ∧ ∀ reach ∈ reaches, reach = .blocked := by
  cases reaches with
  | nil => simp [together]
  | cons first reaches =>
      rw [together]
      split
      next same =>
          rw [List.all_eq_true] at same
          constructor
          · rintro rfl
            refine ⟨List.cons_ne_nil _ _, fun reach isReach => ?_⟩
            rcases List.mem_cons.mp isReach with rfl | later
            · rfl
            · exact of_decide_eq_true (same reach later)
          · exact fun all => all.2 first List.mem_cons_self
      next differ =>
          have notAll : ¬ ∀ reach ∈ first :: reaches, reach = .blocked := fun all =>
            differ (List.all_eq_true.mpr fun reach isReach => decide_eq_true
              ((all reach (List.mem_cons_of_mem _ isReach)).trans
                (all first List.mem_cons_self).symm))
          constructor
          · intro isBlocked
            split at isBlocked <;> cases isBlocked
          · exact fun all => absurd all.2 notAll

variable (snapshot : FirewalldSnapshot) (access : FirewallAccess)

/-- What the zones that an access may be handled by say together. -/
def zonesReach : FirewallReach :=
  together ((snapshot.zonesFor access none none).map (·.reach access snapshot.services))

theorem verdict_eq : snapshot.verdict access =
    if !snapshot.running then .open
    else if snapshot.panic then .blocked
    else if (snapshot.zonesReach access).admits && snapshot.policyDecides then .unknown
    else snapshot.zonesReach access := rfl

theorem zonesReach_admits_iff :
    (snapshot.zonesReach access).admits = true ↔ snapshot.ZonesSettled access true := by
  rw [zonesReach, together_admits_iff, ZonesSettled, ne_eq, List.map_eq_nil_iff,
    List.forall_mem_map]
  exact and_congr_right fun _ => forall₂_congr fun zone _ => decide_admits_iff

theorem zonesReach_eq_blocked_iff :
    snapshot.zonesReach access = .blocked ↔ snapshot.ZonesSettled access false := by
  rw [zonesReach, together_eq_blocked_iff, ZonesSettled, ne_eq, List.map_eq_nil_iff,
    List.forall_mem_map]
  refine and_congr_right fun _ => forall₂_congr fun zone _ =>
    decide_eq_blocked_iff (fun _ isCheck => ne_unknown_of_checks _ access zone isCheck) ?_
  rw [FirewalldZone.fallback]
  split <;> nofun

/-- In force: running and not in panic mode, the zones say what is let in and refused. -/
theorem verdict_of_calm (running : snapshot.running = true) (calm : snapshot.panic = false) :
    ((snapshot.verdict access).admits = true ↔
      snapshot.policyDecides = false ∧ snapshot.ZonesSettled access true) ∧
    (snapshot.verdict access = .blocked ↔ snapshot.ZonesSettled access false) := by
  rw [verdict_eq, if_neg (by simp [running]), if_neg (by simp [calm]),
    ← zonesReach_admits_iff, ← zonesReach_eq_blocked_iff]
  cases snapshot.policyDecides <;> cases isReach : snapshot.zonesReach access <;>
    simp [FirewallReach.admits]

/-- A rich rule that sends a connection away does where the zone forwards nothing of its own. -/
theorem ruleSendsAway_of_sendsAway {kernel : FirewalldKernel} {connection : Connection}
    {zone : FirewalldZone} (unforwarded : zone.forwardPorts.any (forwards connection.port) = false)
    (sends : kernel.sendsAway connection zone = true) :
    ∃ rule ∈ zone.richRules, kernel.ruleSendsAway connection rule = true := by
  rw [FirewalldKernel.sendsAway, unforwarded, Bool.false_or] at sends
  exact List.any_eq_true.mp sends

/-- The verdict on an access is right for every connection like it just when no policy may let in
what its zones refuse, and no rich rule may send away what its zones let in. -/
theorem zones_sound_iff :
    snapshot.Sound access ↔ ¬ snapshot.ShutToPolicy access ∧ ¬ snapshot.OpenToForward access := by
  constructor
  · intro sound
    constructor
    · rintro ⟨running, calm, decides, settled, connection, like⟩
      have isBlocked := (snapshot.verdict_of_calm access running calm).2.mpr settled
      let kernel : FirewalldKernel := ⟨fun _ _ => false, fun _ _ => false, fun _ _ => false,
        fun _ _ => false, fun _ _ => false⟩
      have admitted : snapshot.Answers kernel connection .admitted :=
        .byPolicy running calm decides nofun
      exact (sound kernel connection like .admitted admitted).2 isBlocked rfl
    · rintro ⟨running, calm, undecided, settled, kernel, connection, zone, like, handles, rule,
        isRule, sends⟩
      have isOpen := (snapshot.verdict_of_calm access running calm).1.mpr ⟨undecided, settled⟩
      have sent : kernel.sendsAway connection zone = true := by
        rw [FirewalldKernel.sendsAway, Bool.or_eq_true]
        exact .inr (List.any_eq_true.mpr ⟨rule, isRule, sends⟩)
      cases (sound kernel connection like .sentAway
        (.byZone running calm handles (.sent sent))).1 isOpen
  · rintro ⟨notShut, notOpen⟩ kernel connection like answer answers
    cases answers with
    | stopped down =>
        rw [verdict_eq, if_pos (by simp [down])]
        exact ⟨fun _ => rfl, nofun⟩
    | panicked running panic =>
        rw [verdict_eq, if_neg (by simp [running]), if_pos panic]
        exact ⟨nofun, nofun⟩
    | byPolicy running calm decides notSent =>
        obtain ⟨admits, blocked⟩ := snapshot.verdict_of_calm access running calm
        constructor
        · intro isOpen
          rw [(admits.mp isOpen).1] at decides
          cases decides
        · intro isBlocked
          exact absurd ⟨running, calm, decides, blocked.mp isBlocked, connection, like⟩ notShut
    | byZone running calm handles zoneAnswers =>
        obtain ⟨admits, blocked⟩ := snapshot.verdict_of_calm access running calm
        have isZone := mem_zonesFor kernel like handles
        constructor
        · intro isOpen
          obtain ⟨undecided, settled⟩ := admits.mp isOpen
          have zoneSettled := settled.2 _ isZone
          rcases zoneAnswers_of_settled kernel _ like zoneSettled zoneAnswers with same | ⟨-, sends⟩
          · exact same
          · have unforwarded := not_forwards_of_settled _ like zoneSettled
            exact absurd ⟨running, calm, undecided, settled, kernel, connection, _, like, handles,
              ruleSendsAway_of_sendsAway unforwarded sends⟩ notOpen
        · intro isBlocked
          rcases zoneAnswers_of_settled kernel _ like ((blocked.mp isBlocked).2 _ isZone) zoneAnswers
            with same | ⟨same, -⟩
          · rw [same]
            nofun
          · rw [same]
            nofun

end FirewalldSnapshot

/-! ### A rich rule that forwards what its zone lets in -/

/-- The default zone lets SSH in, and a rich rule of it forwards the port to another host. -/
def forwardedAway : FirewalldSnapshot where
  running := true
  defaultZone := some "public".toList
  panic := false
  runtime := some [{
    name := "public".toList
    target := .defaultTarget
    interfaces := []
    sources := []
    services := []
    ports := [⟨"22".toList, tcp⟩]
    protocols := []
    sourcePorts := []
    forwardPorts := []
    richRules := [.parse
      "rule forward-port port=\"22\" protocol=\"tcp\" to-addr=\"10.0.0.2\"".toList] }]
  permanent := []
  services := ∅
  policies := []

def forwardedAccess : FirewallAccess where
  via := .ssh
  port := 22
  client := some "192.0.2.7".toList
  server := none
  iface := none

def forwardedConnection : Connection where
  client := .v4 0xc0000207#32
  clientPort := 50000
  server := .v4 0x0a000001#32
  port := 22
  iface := "eth0".toList
  oneFamily := rfl

def plainFirewalldKernel : FirewalldKernel where
  zoneSource := fun _ _ => false
  ruleSource := fun _ _ => false
  network := fun _ _ => false
  service := fun _ _ => false
  sourcePort := fun _ _ => false

theorem not_sound_forwardedAway : ¬ forwardedAway.Sound forwardedAccess := by
  intro sound
  have like : forwardedConnection.Like forwardedAccess :=
    ⟨rfl, by decide, by decide, by decide⟩
  have isOpen : (forwardedAway.verdict forwardedAccess).admits = true := by decide
  have handles : plainFirewalldKernel.Handles forwardedConnection forwardedAway.zones
      forwardedAway.defaultZone (forwardedAway.zones.head (by decide)) :=
    .byDefault (by decide) (by decide) (by decide)
  have sent : plainFirewalldKernel.sendsAway forwardedConnection
      (forwardedAway.zones.head (by decide)) = true := by decide
  cases (sound plainFirewalldKernel forwardedConnection like .sentAway
    (.byZone rfl rfl handles (.sent sent))).1 isOpen

end ServerBox.Firewall
