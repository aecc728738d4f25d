import ServerBox.Firewall.Ufw

/-!
# What ufw's rules say of a connection

The kernel asks the rules of a connection's own family, in that family's file, and takes the
first that matches; `reach` asks one list of both files' rules what it knows of an access. The
two agree on every connection like the access just when folding the files into one list does
not change which rule comes first, unless the answer is left open.
-/

namespace ServerBox.Firewall

open ServerBox.Std

/-! ### Connections -/

/-- A new TCP connection. -/
structure Connection where
  client : IpAddr
  clientPort : Nat
  server : IpAddr
  port : Nat
  iface : Text
  oneFamily : client.isIpv6 = server.isIpv6

/-- Whether a connection is one that an access describes, as far as it does. -/
structure Connection.Like (connection : Connection) (access : FirewallAccess) : Prop where
  port : connection.port = access.port
  client : ∀ client, access.clientIp = some client → client = connection.client
  server : ∀ server, access.serverIp = some server → server = connection.server
  iface : ∀ iface, access.iface = some iface → iface = connection.iface

/-- What the kernel makes of a rule's text where `judge` does not read it: a text that is no
network, a source port, an interface (`eth+`). -/
structure Kernel where
  network : Text → IpAddr → Bool
  sourcePort : Text → Nat → Bool
  interface : Text → Text → Bool

namespace Kernel

variable (kernel : Kernel)

def endMatches (network : Option Text) (address : IpAddr) : Bool :=
  network.all fun network =>
    (networkContains network address).getD (kernel.network network address)

/-- Whether a rule matches a connection of its family. -/
def ruleMatches (connection : Connection) (rule : UfwRule) : Bool :=
  !rule.routed && rule.direction = .incoming && rule.protocol.all (· = "tcp".toList) &&
    portSpecCovers rule.dest.port connection.port &&
    kernel.endMatches rule.source.address connection.client &&
    kernel.endMatches rule.dest.address connection.server &&
    rule.source.port.all (kernel.sourcePort · connection.clientPort) &&
    rule.interfaceIn.all (kernel.interface · connection.iface)

/-- Whether a list of rules lets a connection in: its first match, else the policy. -/
def lets (policy : UfwPolicy) (connection : Connection) (rules : List UfwRule) : Bool :=
  match rules.find? (kernel.ruleMatches connection) with
  | some rule => rule.verdict.admits
  | none => policy = .allow

end Kernel

/-- Whether a rule is of a family that an access is asked about: a named client's, or any. -/
def UfwRule.askedFor (access : FirewallAccess) (rule : UfwRule) : Bool :=
  access.clientIp.all fun client => rule.ipVersion ≠ otherVersion client

/-- The rules of one file. -/
def fileRules (lines : List Text) (version : UfwIpVersion) : List UfwRule :=
  lines.filterMap fun line => parseTuple [line] version

/-- What the two files, the policy and the IPv6 setting of an active ufw are. -/
structure UfwFiles where
  v4 : List Text
  v6 : List Text
  ipv6 : Bool
  policy : UfwPolicy
  /-- Whether the policy could be read. -/
  policyRead : Bool

namespace UfwFiles

variable (files : UfwFiles) (kernel : Kernel) (access : FirewallAccess)

/-- The kernel's answer. -/
def admitted (connection : Connection) : Bool :=
  if connection.client.isIpv6 then
    !files.ipv6 || kernel.lets files.policy connection (fileRules files.v6 .v6)
  else kernel.lets files.policy connection (fileRules files.v4 .v4)

def snapshot : UfwSnapshot where
  active := some true
  ipv6 := files.ipv6
  incoming := if files.policyRead then some files.policy else none
  rules := mergeRules files.v4 files.v6

def reach : FirewallReach := files.snapshot.reach access none none none

/-- The rules that the verdict on an access is from: all, or a named client's family's. -/
def asked : List UfwRule :=
  files.snapshot.rules.filter (UfwRule.askedFor access)

/-- Whether IPv6 is off for a named client. -/
def waved : Bool := !files.ipv6 && access.clientIp.any IpAddr.isIpv6

/-- What the one list of both files' rules says of a connection. -/
def foldedAdmits (connection : Connection) : Bool :=
  files.waved access || kernel.lets files.policy connection (files.asked access)

/-- Whether the verdict on an access is right for every connection like it. -/
def Sound : Prop :=
  ∀ connection : Connection, connection.Like access →
    ((files.reach access).admits = true → files.admitted kernel connection = true) ∧
    (files.reach access = .blocked → files.admitted kernel connection = false)

/-- What each rule does to a connection like the access, where it does not surely not apply. -/
def checks : List Judged := files.snapshot.rules.filterMap (·.judge access)

/-- Whether the verdict turns on what is not known: a rule that only might apply, before the
first that surely does, decides otherwise than that one or the policy, or neither of the two is
known. -/
def Doubtful : Prop :=
  files.waved access = false ∧
    ((∃ maybe ∈ (weigh (files.checks access)).1, maybe.admits ≠
        ((weigh (files.checks access)).2.getD (fallback files.snapshot.incoming)).admits) ∨
      ((weigh (files.checks access)).2 = none ∧ files.policyRead = false))

/-- Whether both files, folded into one list, decide each connection like an access as the
connection's own file does. -/
def FoldedAlike : Prop :=
  ∀ connection : Connection, connection.Like access →
    files.admitted kernel connection = files.foldedAdmits kernel access connection

end UfwFiles

/-! ### One rule -/

/-- What a rule's judgement says: it is of no other family, and it applies unless one of its
ends holds another address. -/
theorem UfwRule.judge_eq_some_iff {rule : UfwRule} {access : FirewallAccess} {judged : Judged} :
    rule.judge access = some judged ↔
      (rule.routed = false ∧ rule.direction = .incoming) ∧
      (∀ protocol ∈ rule.protocol, protocol = "tcp".toList) ∧
      portSpecCovers rule.dest.port access.port = true ∧
      (∀ client ∈ access.clientIp, rule.ipVersion ≠ otherVersion client) ∧
      (endHolds rule.source.address access.clientIp ≠ some false ∧
        endHolds rule.dest.address access.serverIp ≠ some false) ∧
      judged = {
        verdict := rule.verdict
        sure := rule.interfaceIn.isNone && rule.source.port.isNone &&
          (endHolds rule.source.address access.clientIp).isSome &&
          (endHolds rule.dest.address access.serverIp).isSome } := by
  simp only [judge, Option.ite_none_left_eq_some, Option.some.injEq, Bool.or_eq_true,
    decide_eq_true_eq, not_or, Bool.not_eq_true, Option.any_eq_false, decide_eq_false_iff_not,
    not_not, Bool.not_eq_true', Bool.not_eq_false, ne_eq, Option.mem_def, eq_comm (b := judged)]

theorem UfwRule.askedFor_iff {rule : UfwRule} {access : FirewallAccess} :
    rule.askedFor access = true ↔
      ∀ client ∈ access.clientIp, rule.ipVersion ≠ otherVersion client := by
  cases named : access.clientIp <;> simp [askedFor, named]

section Like

variable (kernel : Kernel) {access : FirewallAccess} {connection : Connection}
  (like : connection.Like access)

/-- An end that holds what is known of the connection matches it, and one that matches it does
not hold something else. -/
theorem endMatches_of_endHolds {known : Option IpAddr} {address : IpAddr}
    (same : ∀ ip, known = some ip → ip = address) (network : Option Text) :
    (UfwRule.endHolds network known = some true → kernel.endMatches network address = true) ∧
      (UfwRule.endHolds network known = some false → kernel.endMatches network address = false) := by
  cases network with
  | none => exact ⟨fun _ => rfl, nofun⟩
  | some network =>
      cases known with
      | none => exact ⟨nofun, nofun⟩
      | some ip =>
          obtain rfl := same ip rfl
          simp only [UfwRule.endHolds, holds, Option.bind_some, Kernel.endMatches, Option.all_some]
          constructor
          · intro held
            rw [held]
            rfl
          · intro held
            rw [held]
            rfl

include like

/-- A rule that is judged sure matches. -/
theorem ruleMatches_of_sure {rule : UfwRule} {judged : Judged}
    (isJudged : rule.judge access = some judged) (sure : judged.sure = true) :
    kernel.ruleMatches connection rule = true := by
  obtain ⟨⟨notRouted, incoming⟩, protocol, port, -, ⟨client, server⟩, rfl⟩ :=
    UfwRule.judge_eq_some_iff.mp isJudged
  simp only [Bool.and_eq_true, Option.isNone_iff_eq_none, Option.isSome_iff_exists] at sure
  obtain ⟨⟨⟨noInterface, noPort⟩, heldClient, isClient⟩, heldServer, isServer⟩ := sure
  have clientTrue : heldClient = true := by
    cases heldClient with
    | true => rfl
    | false => exact absurd isClient client
  have serverTrue : heldServer = true := by
    cases heldServer with
    | true => rfl
    | false => exact absurd isServer server
  subst clientTrue serverTrue
  have source := (endMatches_of_endHolds kernel like.client rule.source.address).1 isClient
  have dest := (endMatches_of_endHolds kernel like.server rule.dest.address).1 isServer
  simp only [Kernel.ruleMatches, notRouted, incoming, like.port, port, source, dest, noPort,
    noInterface, Option.all_none, Bool.not_false, decide_true, Bool.and_true, Bool.true_and]
  exact Option.all_eq_true_iff_get _ _ |>.mpr fun _ => by simpa using protocol _ (by simp)

/-- A rule of the asked family that does not apply does not match. -/
theorem not_ruleMatches_of_judge {rule : UfwRule} (isJudged : rule.judge access = none)
    (asked : ∀ client ∈ access.clientIp, rule.ipVersion ≠ UfwRule.otherVersion client) :
    kernel.ruleMatches connection rule = false := by
  by_contra doesMatch
  simp only [Bool.not_eq_false, Kernel.ruleMatches, Bool.and_eq_true, Bool.not_eq_true',
    decide_eq_true_eq] at doesMatch
  obtain ⟨⟨⟨⟨⟨⟨⟨notRouted, incoming⟩, protocol⟩, port⟩, source⟩, dest⟩, -⟩, -⟩ := doesMatch
  have client : UfwRule.endHolds rule.source.address access.clientIp ≠ some false := fun other => by
    rw [(endMatches_of_endHolds kernel like.client _).2 other] at source
    cases source
  have server : UfwRule.endHolds rule.dest.address access.serverIp ≠ some false := fun other => by
    rw [(endMatches_of_endHolds kernel like.server _).2 other] at dest
    cases dest
  have isTcp : ∀ name ∈ rule.protocol, name = "tcp".toList := fun name isName => by
    rw [isName] at protocol
    simpa using protocol
  rw [like.port] at port
  have applies := UfwRule.judge_eq_some_iff.mpr
    ⟨⟨notRouted, incoming⟩, isTcp, port, asked, ⟨client, server⟩, rfl⟩
  rw [isJudged] at applies
  cases applies

/-! ### The list of rules -/

/-- What the rules asked say of a connection is what a check that only might apply says, or the
first sure one, or the policy where there is none. -/
theorem lets_of_weigh (policy : UfwPolicy) (rules : List UfwRule) :
    let lets := kernel.lets policy connection (rules.filter (UfwRule.askedFor access))
    let weighed := weigh (rules.filterMap (·.judge access))
    (∃ maybe ∈ weighed.1, lets = maybe.admits) ∨
      lets = (weighed.2.map FirewallReach.admits).getD (policy = .allow) := by
  induction rules with
  | nil => exact .inr rfl
  | cons rule rules inductionHypothesis =>
      cases asked : rule.askedFor access with
      | false =>
          have notJudged : rule.judge access = none := by
            cases judgement : rule.judge access with
            | none => rfl
            | some judged =>
                obtain ⟨-, -, -, ofFamily, -⟩ := UfwRule.judge_eq_some_iff.mp judgement
                rw [UfwRule.askedFor_iff.mpr ofFamily] at asked
                cases asked
          simpa only [List.filter_cons, asked, Bool.false_eq_true, if_false, List.filterMap_cons,
            notJudged] using inductionHypothesis
      | true =>
          have ofFamily := UfwRule.askedFor_iff.mp asked
          simp only [List.filter_cons, asked, if_true, List.filterMap_cons]
          cases judgement : rule.judge access with
          | none =>
              have noMatch := not_ruleMatches_of_judge kernel like judgement ofFamily
              simpa only [Kernel.lets, List.find?_cons, noMatch] using inductionHypothesis
          | some judged =>
              have verdict : judged.verdict = rule.verdict := by
                obtain ⟨-, -, -, -, -, rfl⟩ := UfwRule.judge_eq_some_iff.mp judgement
                rfl
              rw [weigh]
              cases sure : judged.sure with
              | true =>
                  have isMatch := ruleMatches_of_sure kernel like judgement sure
                  right
                  simp [Kernel.lets, isMatch, verdict]
              | false =>
                  cases isMatch : kernel.ruleMatches connection rule with
                  | true =>
                      left
                      exact ⟨judged.verdict, List.mem_cons_self, by
                        simp [Kernel.lets, isMatch, verdict]⟩
                  | false =>
                      rcases inductionHypothesis with ⟨maybe, isMaybe, same⟩ | same
                      · left
                        refine ⟨maybe, List.mem_cons_of_mem _ isMaybe, ?_⟩
                        simpa only [Kernel.lets, List.find?_cons, isMatch] using same
                      · right
                        simpa only [Kernel.lets, List.find?_cons, isMatch, Bool.false_eq_true,
                          if_false] using same

end Like

theorem mem_of_weigh {checks : List Judged} {verdict : FirewallReach}
    (decided : (weigh checks).2 = some verdict) : ∃ judged ∈ checks, judged.verdict = verdict := by
  induction checks with
  | nil => cases decided
  | cons check checks inductionHypothesis =>
      rw [weigh] at decided
      cases sure : check.sure with
      | true =>
          rw [if_pos sure] at decided
          exact ⟨check, List.mem_cons_self, Option.some.inj decided⟩
      | false =>
          rw [if_neg (by simp [sure])] at decided
          obtain ⟨judged, isCheck, same⟩ := inductionHypothesis decided
          exact ⟨judged, List.mem_cons_of_mem _ isCheck, same⟩

theorem decide_of_agree {checks : List Judged} {otherwise : FirewallReach}
    (agree : ∀ maybe ∈ (weigh checks).1,
      maybe.admits = ((weigh checks).2.getD otherwise).admits) :
    decide checks otherwise = (weigh checks).2.getD otherwise := by
  rw [decide]
  refine if_neg ?_
  simpa using agree

namespace UfwFiles

variable (files : UfwFiles) (kernel : Kernel) (access : FirewallAccess)

theorem reach_eq : files.reach access =
    if files.waved access then .open
    else decide (files.checks access) (fallback files.snapshot.incoming) := by
  have isActive : (none : Option Bool).or files.snapshot.active ≠ some false := by
    simp [snapshot]
  rw [reach, UfwSnapshot.reach, if_neg isActive]
  rfl

/-- No rule's verdict is left open. -/
theorem ne_unknown_of_checks {judged : Judged} (isCheck : judged ∈ files.checks access) :
    judged.verdict ≠ .unknown := by
  obtain ⟨rule, -, judgement⟩ := List.mem_filterMap.mp isCheck
  obtain ⟨-, -, -, -, -, rfl⟩ := UfwRule.judge_eq_some_iff.mp judgement
  simp only [UfwRule.verdict]
  cases rule.action <;> simp

/-- A verdict that is not doubtful is what the one list says of every connection like the
access. -/
theorem reach_of_not_doubtful (settled : ¬ files.Doubtful access) {connection : Connection}
    (like : connection.Like access) :
    (files.reach access).admits = files.foldedAdmits kernel access connection ∧
      files.reach access ≠ .unknown := by
  rw [reach_eq, foldedAdmits]
  cases waved : files.waved access with
  | true => exact ⟨rfl, nofun⟩
  | false =>
      simp only [Doubtful, waved, true_and, not_or, not_exists, not_and, ne_eq, not_not] at settled
      obtain ⟨agree, known⟩ := settled
      have isVerdict := decide_of_agree agree
      have said := lets_of_weigh kernel like files.policy files.snapshot.rules
      have policyKnown : (weigh (files.checks access)).2 = none →
          files.snapshot.incoming = some files.policy := fun none => by
        simp [snapshot, known none]
      rw [if_neg Bool.false_ne_true, Bool.false_or, isVerdict]
      constructor
      · rcases said with ⟨maybe, isMaybe, same⟩ | same
        · exact (agree maybe isMaybe).symm.trans same.symm
        · refine Eq.trans ?_ same.symm
          change _ = ((weigh (files.checks access)).2.map FirewallReach.admits).getD _
          cases decided : (weigh (files.checks access)).2 with
          | some verdict => rfl
          | none =>
              rw [policyKnown decided]
              cases files.policy <;> rfl
      · cases decided : (weigh (files.checks access)).2 with
        | some verdict =>
            obtain ⟨judged, isCheck, rfl⟩ := mem_of_weigh decided
            exact files.ne_unknown_of_checks access isCheck
        | none =>
            rw [policyKnown decided]
            cases files.policy <;> simp [fallback]

/-- A doubtful verdict is left open. -/
theorem reach_of_doubtful (doubtful : files.Doubtful access) : files.reach access = .unknown := by
  obtain ⟨notWaved, open_⟩ := doubtful
  rw [reach_eq, notWaved, if_neg Bool.false_ne_true, decide]
  rcases open_ with ⟨maybe, isMaybe, differs⟩ | ⟨noneSure, unread⟩
  · refine if_pos ?_
    rw [List.any_eq_true]
    exact ⟨maybe, isMaybe, by simpa using differs⟩
  · have unknown : (weigh (files.checks access)).2.getD (fallback files.snapshot.incoming) =
        .unknown := by
      simp [noneSure, snapshot, unread, fallback]
    simp only [unknown]
    split <;> rfl

end UfwFiles

/-! ### Connections of a named IPv4 client -/

theorem parseFields_eq (fields : List Text) (comment : Option Text) (version : UfwIpVersion)
    (tuples others : List Text) : parseFields fields comment version tuples =
      (parseFields fields comment .v4 others).map fun rule =>
        { rule with ipVersion := version, tuples := tuples } := by
  simp only [parseFields]
  split
  · rfl
  · cases parseAction (splitRoute (fields.getD 0 [])).2 with
    | none => rfl
    | some action =>
        cases parseInterfaces (fields.getD (fields.length - 1) []) with
        | none => rfl
        | some interfaces => cases interfaces <;> rfl

/-- Only the first line and the family say what a rule is. -/
theorem parseTuple_cons (line : Text) (others : List Text) (version : UfwIpVersion) :
    parseTuple (line :: others) version = (parseTuple [line] .v4).map fun rule =>
      { rule with ipVersion := version, tuples := line :: others } := by
  simp only [parseTuple, List.head?_cons]
  cases rest : Text.stripPrefix tuplePrefix line with
  | none => simp [rest]
  | some rest =>
      simp only [rest, Option.bind_eq_bind, Option.bind_some]
      exact parseFields_eq _ _ _ _ _

/-- A folded rule is its v4 line's, of v4 at least. -/
theorem foldedRule_eq (v6 : List Text) (line : Text) :
    ∃ version tuples, version ≠ .v6 ∧ foldedRule v6 line = (parseTuple [line] .v4).map fun rule =>
      { rule with ipVersion := version, tuples := tuples } := by
  rw [foldedRule]
  split
  · exact ⟨.both, _, nofun, parseTuple_cons _ _ _⟩
  · exact ⟨.v4, _, nofun, parseTuple_cons _ _ _⟩

/-- The lines of the v4 file let a connection in as the rules folded from them do. -/
theorem Kernel.lets_foldedRule (kernel : Kernel) (policy : UfwPolicy) (connection : Connection)
    (v4 v6 : List Text) : kernel.lets policy connection (v4.filterMap (foldedRule v6)) =
      kernel.lets policy connection (fileRules v4 .v4) := by
  induction v4 with
  | nil => rfl
  | cons line v4 inductionHypothesis =>
      obtain ⟨version, tuples, -, folded⟩ := foldedRule_eq v6 line
      simp only [fileRules, List.filterMap_cons, folded] at inductionHypothesis ⊢
      cases parseTuple [line] .v4 with
      | none => exact inductionHypothesis
      | some rule =>
          simp only [Option.map_some, lets, List.find?_cons] at inductionHypothesis ⊢
          have same : kernel.ruleMatches connection { rule with ipVersion := version, tuples } =
              kernel.ruleMatches connection rule := rfl
          rw [same]
          cases kernel.ruleMatches connection rule with
          | true => rfl
          | false => exact inductionHypothesis

/-- A named IPv4 client's connections are decided as its own file does. -/
theorem UfwFiles.foldedAlike_of_v4 (files : UfwFiles) (kernel : Kernel) {access : FirewallAccess}
    {bits : BitVec 32} (named : access.clientIp = some (.v4 bits)) :
    files.FoldedAlike kernel access := by
  intro connection like
  obtain client := like.client _ named
  have notWaved : files.waved access = false := by simp [waved, named, IpAddr.isIpv6]
  have asked : files.asked access = files.v4.filterMap (foldedRule files.v6) := by
    rw [UfwFiles.asked, snapshot, mergeRules, List.filter_append]
    have kept : (files.v4.filterMap (foldedRule files.v6)).filter (UfwRule.askedFor access) =
        files.v4.filterMap (foldedRule files.v6) := by
      refine List.filter_eq_self.mpr fun rule isRule => ?_
      obtain ⟨line, -, folded⟩ := List.mem_filterMap.mp isRule
      obtain ⟨version, tuples, notV6, eq⟩ := foldedRule_eq files.v6 line
      rw [eq] at folded
      obtain ⟨_, -, rfl⟩ := Option.map_eq_some_iff.mp folded
      simpa [UfwRule.askedFor, named, UfwRule.otherVersion, IpAddr.isIpv6] using notV6
    have dropped : ((files.v6.filter (· ∉ merged files.v4 files.v6)).filterMap fun tuple =>
        parseTuple [tuple] .v6).filter (UfwRule.askedFor access) = [] := by
      refine List.filter_eq_nil_iff.mpr fun rule isRule => ?_
      obtain ⟨line, -, isParsed⟩ := List.mem_filterMap.mp isRule
      rw [parseTuple_cons] at isParsed
      obtain ⟨_, -, rfl⟩ := Option.map_eq_some_iff.mp isParsed
      simp [UfwRule.askedFor, named, UfwRule.otherVersion, IpAddr.isIpv6]
    rw [kept, dropped, List.append_nil]
  rw [admitted, foldedAdmits, notWaved, asked, Bool.false_or, kernel.lets_foldedRule, ← client,
    IpAddr.isIpv6, if_neg Bool.false_ne_true]

/-! ### A rule in front of a folded one -/

/-- A v6 file that denies a network SSH before it allows it to everyone, as the v4 file does. -/
def deniedFirst : UfwFiles where
  v4 := ["### tuple ### allow tcp 22 0.0.0.0/0 any 0.0.0.0/0 in".toList]
  v6 := ["### tuple ### deny tcp 22 ::/0 any 2001:db8::/32 in".toList,
    "### tuple ### allow tcp 22 ::/0 any ::/0 in".toList]
  ipv6 := true
  policy := .deny
  policyRead := true

def deniedAccess : FirewallAccess where
  via := .ssh
  port := 22
  client := some "2001:db8::1".toList
  server := none
  iface := none

def deniedConnection : Connection where
  client := .v6 0x20010db8000000000000000000000001#128
  clientPort := 50000
  server := .v6 0x1#128
  port := 22
  iface := "eth0".toList
  oneFamily := rfl

def plainKernel : Kernel where
  network := fun _ _ => false
  sourcePort := fun _ _ => false
  interface := fun interface iface => interface = iface

end ServerBox.Firewall
