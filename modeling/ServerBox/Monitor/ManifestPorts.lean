import ServerBox.Monitor.ManifestEnv

/-!
# The ports of a stack

`Manifest::settle_ports` of `src/monitor/src/stacks/manifest.rs` and `Ports::free` of
`src/monitor/src/stacks/ports.rs`: the port settings are checked against the machine and one
another, in the order of the manifest, and where that is asked for a taken one moves on. What has
been moved stays moved when a later one is refused; the caller drops the settings then.
-/

namespace ServerBox.Monitor.Manifest

open ServerBox.Std

/-! ### Which ports are free -/

inductive PortProtocol where
  | tcp
  | udp
deriving DecidableEq, Repr

def Protocol.transports : Protocol → List PortProtocol
  | tcp => [.tcp]
  | udp => [.udp]
  | both => [.tcp, .udp]

/-- A port that a container publishes, running or not. -/
structure PublishedPort where
  port : Nat
  protocol : PortProtocol
  project : Option Text
  running : Bool

structure Ports where
  published : List PublishedPort
  /-- The compose project of the stack asking. -/
  own : Text
  bind : Nat → PortProtocol → Bool

/-- `Ports::free`. -/
def Ports.free (ports : Ports) (port : Nat) (protocol : PortProtocol) : Bool :=
  let mine := fun published : PublishedPort => decide (published.project = some ports.own)
  let here := ports.published.filter fun published =>
    decide (published.port = port) && decide (published.protocol = protocol)
  if here.any fun published => !mine published then false
  else ports.bind port protocol || (here.filter mine).any (·.running)

/-- `Machine::free`: every port is free where nothing is known. -/
def Ports.frees (ports : Option Ports) (port : Nat) (protocol : Protocol) : Bool :=
  ports.all fun ports => protocol.transports.all fun transport => ports.free port transport

/-! ### Settling -/

structure MovedPort where
  setting : Text
  from_ : Nat
  to_ : Nat
deriving DecidableEq

/-- The port that the settings have for a key. -/
def portOf (settings : Settings) (key : Text) : Option Nat :=
  ((settings[key]?).bind Value.asNumber).filter fun port => decide (port ≤ 65535)

/-- Whether a port is free, and not used by the package's own. -/
def portOk (machine : Machine) (used : List (Nat × PortProtocol)) (protocol : Protocol)
    (port : Nat) : Bool :=
  (protocol.transports.all fun transport => decide ((port, transport) ∉ used)) &&
    machine.free port protocol

/-- Where a taken port moves to. -/
def nextPort (ok : Nat → Bool) (follow : Bool) (default port : Nat) : Option Nat :=
  let last := min (default + portSearch) 65535
  if follow && decide (default ≤ port) && decide (port ≤ last) then
    let first := min (port + 1) 65535
    (List.range' first (last + 1 - first)).find? ok
  else none

/-- The loop of `settle_ports`: the settings as it leaves them, and its answer. -/
def settleFrom (machine : Machine) (follow : Bool) (settings : Settings)
    (used : List (Nat × PortProtocol)) (moved : List MovedPort) :
    List Setting → Settings × Except Invalid (List MovedPort)
  | [] => (settings, .ok moved)
  | .port key _ default protocol :: rest =>
      match portOf settings key with
      | none => settleFrom machine follow settings used moved rest
      | some port =>
          let ok := portOk machine used protocol
          let taking := fun port => used ++ protocol.transports.map (port, ·)
          if ok port then settleFrom machine follow settings (taking port) moved rest
          else match nextPort ok follow default port with
            | none => (settings, .error ⟨key, "portTaken".toList⟩)
            | some next =>
                settleFrom machine follow (settings.insert key (.number next)) (taking next)
                  (moved ++ [⟨key, port, next⟩]) rest
  | _ :: rest => settleFrom machine follow settings used moved rest

/-- `settle_ports`. -/
def settlePorts (manifest : Manifest) (settings : Settings) (machine : Machine) (follow : Bool) :
    Settings × Except Invalid (List MovedPort) :=
  settleFrom machine follow settings [] [] manifest.settings

/-! ### What is settled -/

/-- The ports that a setting has, each with its transport. -/
def Setting.ports (settings : Settings) : Setting → List (Nat × PortProtocol)
  | port key _ _ protocol =>
      match portOf settings key with
      | some number => protocol.transports.map (number, ·)
      | none => []
  | _ => []

def portsOf (settings : Settings) (package : List Setting) : List (Nat × PortProtocol) :=
  package.flatMap (Setting.ports settings)

/-- A port that is not free, or that the package uses itself. -/
def Taken (machine : Machine) (used : List (Nat × PortProtocol)) (protocol : Protocol)
    (port : Nat) : Prop :=
  machine.free port protocol = false ∨ ∃ transport ∈ protocol.transports, (port, transport) ∈ used

/-- A port went from the range that the dialog suggests from to the next one there that is neither
taken nor used by a setting before its own. -/
def IsMove (machine : Machine) (follow : Bool) (given settings : Settings) (package : List Setting)
    (move : MovedPort) : Prop :=
  ∃ front env default protocol back,
    package = front ++ .port move.setting env default protocol :: back ∧
    follow = true ∧ portOf given move.setting = some move.from_ ∧
    portOf settings move.setting = some move.to_ ∧
    default ≤ move.from_ ∧ move.from_ < move.to_ ∧ move.to_ ≤ default + portSearch ∧
    ∀ port, move.from_ ≤ port → port < move.to_ →
      Taken machine (portsOf settings front) protocol port

/-- What holds once the first settings of a package are settled. -/
structure Settled (machine : Machine) (follow : Bool) (given settings : Settings)
    (package : List Setting) (moved : List MovedPort) : Prop where
  apart : (portsOf settings package).Nodup
  free : ∀ key env default protocol port, .port key env default protocol ∈ package →
    portOf settings key = some port → machine.free port protocol = true
  moves : ∀ move ∈ moved, IsMove machine follow given settings package move

/-- What is not moved is as it was. -/
def UnmovedKept (given settings : Settings) (moved : List MovedPort) : Prop :=
  ∀ key : Text, (∀ move ∈ moved, move.setting ≠ key) → settings[key]? = given[key]?

theorem portOk_iff {machine : Machine} {used : List (Nat × PortProtocol)} {protocol : Protocol}
    {port : Nat} :
    portOk machine used protocol port = true ↔ ¬ Taken machine used protocol port := by
  simp only [portOk, Taken, Bool.and_eq_true, List.all_eq_true, decide_eq_true_eq, not_or,
    Bool.not_eq_false, not_exists, not_and]
  exact and_comm

theorem portOf_le {settings : Settings} {key : Text} {port : Nat}
    (has : portOf settings key = some port) : port ≤ 65535 := by
  simpa using (Option.filter_eq_some_iff.mp has).2

theorem portOf_insert (settings : Settings) (key other : Text) (port : Nat) (small : port ≤ 65535) :
    portOf (settings.insert key (.number port)) other =
      if key = other then some port else portOf settings other := by
  unfold portOf
  rw [Std.TreeMap.getElem?_insert]
  by_cases same : key = other
  · simp [same, Value.asNumber, small]
  · simp [same]

/-- The port it moves to is the next one that is neither taken nor used. -/
theorem nextPort_eq_some {ok : Nat → Bool} {follow : Bool} {default port next : Nat}
    (small : port ≤ 65535) (taken : ok port = false)
    (found : nextPort ok follow default port = some next) :
    follow = true ∧ default ≤ port ∧ port < next ∧ next ≤ default + portSearch ∧ next ≤ 65535 ∧
      ok next = true ∧ ∀ other, port ≤ other → other < next → ok other = false := by
  unfold nextPort at found
  dsimp only at found
  split at found
  next inRange =>
    simp only [Bool.and_eq_true, decide_eq_true_eq] at inRange
    obtain ⟨⟨follows, above⟩, -⟩ := inRange
    obtain ⟨isOk, inside, before⟩ := List.find?_range'_eq_some.mp found
    have bounds := List.mem_range'_1.mp inside
    have beyond : port < next := by
      by_contra reached
      obtain rfl : next = port := by omega
      rw [taken] at isOk
      cases isOk
    refine ⟨follows, above, beyond, by omega, by omega, isOk, fun other low high => ?_⟩
    by_cases same : other = port
    · rwa [same]
    · simpa using before other (by omega) high
  next => cases found

/-! ### One setting more -/

theorem portsOf_insert (settings : Settings) {package : List Setting} {key : Text} {port : Nat}
    (small : port ≤ 65535) (fresh : ∀ setting ∈ package, setting.key ≠ key) :
    portsOf (settings.insert key (.number port)) package = portsOf settings package := by
  refine List.flatMap_congr fun setting among => ?_
  have other := fresh setting among
  cases setting with
  | port here =>
      have differs : key ≠ here := fun same => other same.symm
      simp only [Setting.ports, portOf_insert _ _ _ _ small, if_neg differs]
  | _ => rfl

theorem IsMove.more {machine : Machine} {follow : Bool} {given settings : Settings}
    {package : List Setting} {move : MovedPort}
    (isMove : IsMove machine follow given settings package move) (more : List Setting) :
    IsMove machine follow given settings (package ++ more) move := by
  obtain ⟨front, env, default, protocol, back, rfl, moves⟩ := isMove
  exact ⟨front, env, default, protocol, back ++ more, by simp, moves⟩

/-- A port that another setting is given changes nothing for those that are settled. -/
theorem Settled.insert {machine : Machine} {follow : Bool} {given settings : Settings}
    {package : List Setting} {moved : List MovedPort}
    (settled : Settled machine follow given settings package moved) {key : Text} {port : Nat}
    (small : port ≤ 65535) (fresh : ∀ setting ∈ package, setting.key ≠ key) :
    Settled machine follow given (settings.insert key (.number port)) package moved where
  apart := by
    rw [portsOf_insert settings small fresh]
    exact settled.apart
  free here env default protocol number among has := by
    rw [portOf_insert _ _ _ _ small, if_neg fun same => fresh _ among same.symm] at has
    exact settled.free here env default protocol number among has
  moves move held := by
    obtain ⟨front, env, default, protocol, back, rfl, follows, was, is, range, beyond, within_,
      taken⟩ := settled.moves move held
    refine ⟨front, env, default, protocol, back, rfl, follows, was, ?_, range, beyond, within_, ?_⟩
    · have other := fresh (.port move.setting env default protocol) (by simp)
      rw [portOf_insert _ _ _ _ small, if_neg fun same => other same.symm]
      exact is
    · rw [portsOf_insert settings small fun setting among =>
        fresh setting (List.mem_append_left _ among)]
      exact taken

/-- A setting that has no port. -/
theorem Settled.skip {machine : Machine} {follow : Bool} {given settings : Settings}
    {package : List Setting} {moved : List MovedPort}
    (settled : Settled machine follow given settings package moved) {setting : Setting}
    (none : setting.ports settings = []) :
    Settled machine follow given settings (package ++ [setting]) moved where
  apart := by
    rw [portsOf, List.flatMap_append, List.flatMap_singleton, none, List.append_nil]
    exact settled.apart
  free key env default protocol port among has := by
    rcases List.mem_append.mp among with before | here
    · exact settled.free key env default protocol port before has
    · obtain rfl := List.mem_singleton.mp here
      rw [Setting.ports, has] at none
      cases protocol <;> cases none
  moves move held := (settled.moves move held).more _

/-- A setting whose port is neither taken nor used. -/
theorem Settled.take {machine : Machine} {follow : Bool} {given settings : Settings}
    {package : List Setting} {moved : List MovedPort}
    (settled : Settled machine follow given settings package moved) {key env : Text}
    {default port : Nat} {protocol : Protocol} (has : portOf settings key = some port)
    (open_ : ¬ Taken machine (portsOf settings package) protocol port) :
    Settled machine follow given settings (package ++ [.port key env default protocol]) moved where
  apart := by
    rw [portsOf, List.flatMap_append, List.flatMap_singleton, Setting.ports, has]
    refine List.nodup_append.mpr ⟨settled.apart, ?_, ?_⟩
    · cases protocol <;> simp [Protocol.transports]
    · rintro pair used other among rfl
      obtain ⟨transport, isTransport, rfl⟩ := List.mem_map.mp among
      exact open_ (.inr ⟨transport, isTransport, used⟩)
  free here _ _ _ number among is := by
    rcases List.mem_append.mp among with before | last
    · exact settled.free here _ _ _ number before is
    · obtain ⟨rfl, rfl, rfl, rfl⟩ := Setting.port.inj (List.mem_singleton.mp last)
      obtain rfl := Option.some.inj (has.symm.trans is)
      by_contra taken
      exact open_ (.inl (Bool.eq_false_iff.mpr taken))
  moves move held := (settled.moves move held).more _

/-! ### All of them -/

theorem portsOf_append (settings : Settings) (front back : List Setting) :
    portsOf settings (front ++ back) = portsOf settings front ++ portsOf settings back :=
  List.flatMap_append

theorem portsOf_skip {settings : Settings} (before : List Setting) {setting : Setting}
    (none : setting.ports settings = []) :
    portsOf settings (before ++ [setting]) = portsOf settings before := by
  rw [portsOf_append, portsOf, portsOf, List.flatMap_singleton, none, List.append_nil]

/-- A setting that comes later has not been moved yet. -/
theorem Settled.not_moved {machine : Machine} {follow : Bool} {given settings : Settings}
    {package : List Setting} {moved : List MovedPort}
    (settled : Settled machine follow given settings package moved) {key : Text}
    (fresh : ∀ setting ∈ package, setting.key ≠ key) : ∀ move ∈ moved, move.setting ≠ key := by
  intro move held same
  obtain ⟨front, env, default, protocol, back, rfl, -⟩ := settled.moves move held
  exact fresh (.port move.setting env default protocol) (by simp) same

/-- The next setting is refused, or settled with those before it. -/
theorem settleFrom_spec {machine : Machine} {follow : Bool} {given : Settings}
    (rest : List Setting) {before : List Setting} {settings : Settings} {moved : List MovedPort}
    (keys : (before ++ rest).Pairwise fun left right => left.key ≠ right.key)
    (settled : Settled machine follow given settings before moved)
    (kept : UnmovedKept given settings moved) :
    (∀ after result, settleFrom machine follow settings (portsOf settings before) moved rest =
        (after, .ok result) →
      Settled machine follow given after (before ++ rest) result ∧
        UnmovedKept given after result) ∧
    ∀ after refused, settleFrom machine follow settings (portsOf settings before) moved rest =
        (after, .error refused) →
      ∃ front result, front <+: before ++ rest ∧
        Settled machine follow given after front result ∧ UnmovedKept given after result := by
  induction rest generalizing before settings moved with
  | nil =>
      rw [List.append_nil] at *
      constructor
      · intro after result same
        obtain ⟨rfl, answer⟩ := Prod.mk.inj same
        obtain rfl := Except.ok.inj answer
        exact ⟨settled, kept⟩
      · intro after refused same
        cases (Prod.mk.inj same).2
  | cons setting rest inductionHypothesis =>
      have fresh : ∀ other ∈ before, other.key ≠ setting.key := fun other among =>
        (List.pairwise_append.mp keys).2.2 other among setting List.mem_cons_self
      rw [List.append_cons] at keys ⊢
      -- what the loop goes on with once this setting is settled
      have skipped (none : setting.ports settings = []) :=
        portsOf_skip before none ▸ inductionHypothesis keys (settled.skip none) kept
      cases setting with
      | port key env default protocol =>
          have fresh : ∀ other ∈ before, other.key ≠ key := fresh
          rw [settleFrom]
          cases has : portOf settings key with
          | none =>
              have none : (Setting.port key env default protocol).ports settings = [] := by
                rw [Setting.ports, has]
              exact skipped none
          | some port =>
              have small := portOf_le has
              dsimp only
              split
              next isOk =>
                have taken : Settled machine follow given settings
                    (before ++ [.port key env default protocol]) moved :=
                  settled.take has (portOk_iff.mp isOk)
                have same := inductionHypothesis keys taken kept
                have used : portsOf settings (before ++ [.port key env default protocol]) =
                    portsOf settings before ++ protocol.transports.map (port, ·) := by
                  simp [portsOf, Setting.ports, has]
                rwa [used] at same
              next notOk =>
                cases found : nextPort (portOk machine (portsOf settings before) protocol) follow
                    default port with
                | none =>
                    dsimp only
                    constructor
                    · intro after result same
                      cases (Prod.mk.inj same).2
                    · intro after refused same
                      obtain ⟨rfl, -⟩ := Prod.mk.inj same
                      exact ⟨before, moved, by simp, settled, kept⟩
                | some next =>
                    dsimp only
                    have wasNot : portOk machine (portsOf settings before) protocol port = false :=
                      by simpa using notOk
                    obtain ⟨follows, range, beyond, within_, fits, isOk, between⟩ :=
                      nextPort_eq_some small wasNot found
                    have same := portsOf_insert settings fits fresh
                    have is : portOf (settings.insert key (.number next)) key = some next := by
                      rw [portOf_insert _ _ _ _ fits, if_pos rfl]
                    have was : portOf given key = some port := by
                      rw [← has]
                      unfold portOf
                      rw [kept key (settled.not_moved fresh)]
                    have placed : Settled machine follow given
                        (settings.insert key (.number next))
                        (before ++ [.port key env default protocol]) moved :=
                      (settled.insert fits fresh).take is (by rw [same]; exact portOk_iff.mp isOk)
                    have isMove : IsMove machine follow given (settings.insert key (.number next))
                        (before ++ [.port key env default protocol]) ⟨key, port, next⟩ := by
                      refine ⟨before, env, default, protocol, [], rfl, follows, was, is, range,
                        beyond, within_, fun other low high => ?_⟩
                      rw [same]
                      by_contra open_
                      have stays := between other low high
                      rw [portOk_iff.mpr open_] at stays
                      cases stays
                    have all : Settled machine follow given (settings.insert key (.number next))
                        (before ++ [.port key env default protocol])
                        (moved ++ [⟨key, port, next⟩]) := by
                      refine ⟨placed.apart, placed.free, fun move held => ?_⟩
                      rcases List.mem_append.mp held with old | new
                      · exact placed.moves move old
                      · obtain rfl := List.mem_singleton.mp new
                        exact isMove
                    have others : UnmovedKept given (settings.insert key (.number next))
                        (moved ++ [⟨key, port, next⟩]) := by
                      intro other unmoved
                      simp only [List.mem_append, List.mem_singleton, or_imp, forall_and,
                        forall_eq] at unmoved
                      rw [Std.TreeMap.getElem?_insert]
                      rw [if_neg (by simpa using unmoved.2)]
                      exact kept other unmoved.1
                    have rest := inductionHypothesis keys all others
                    have used : portsOf (settings.insert key (.number next))
                        (before ++ [.port key env default protocol]) =
                          portsOf settings before ++ protocol.transports.map (next, ·) := by
                      rw [portsOf_append, same]
                      simp [portsOf, Setting.ports, is]
                    rwa [used] at rest
      | _ => exact skipped rfl

/-- For every package, settings and set of taken ports: on `Ok` the package's ports are disjoint
and free, each that moved is the next one open in its range, and the rest is as it was. On an
error the settings differ in nothing but ports that moved before it. -/
theorem settlePorts_settles {manifest : Manifest} (package : manifest.keyProblems = [])
    (ports : Option Ports) (known : Machine) (settings : Settings) (follow : Bool) :
    let machine := { known with free := Ports.frees ports }
    (∀ after moved, settlePorts manifest settings machine follow = (after, .ok moved) →
      Settled machine follow settings after manifest.settings moved ∧
        UnmovedKept settings after moved) ∧
    ∀ after refused, settlePorts manifest settings machine follow = (after, .error refused) →
      ∃ front moved, front <+: manifest.settings ∧
        Settled machine follow settings after front moved ∧ UnmovedKept settings after moved := by
  intro machine
  have none : Settled machine follow settings settings [] [] := ⟨.nil, nofun, nofun⟩
  have keys : ([] ++ manifest.settings : List Setting).Pairwise fun left right =>
      left.key ≠ right.key :=
    keys_of_keyProblems manifest package
  exact settleFrom_spec manifest.settings keys none fun _ _ => rfl

/-! ### Two ports -/

def twoPorts : Manifest where
  composeFiles := []
  env := ∅
  secrets := []
  settings := [.port "a".toList "A".toList 8080 .tcp, .port "b".toList "B".toList 9000 .tcp]
  mcp := []
  llm := none

/-- A machine where nothing is published and programs hold these ports. -/
def machineWith (held : List Nat) : Machine :=
  { noteMachine with
    free := Ports.frees (some ⟨[], "x".toList, fun port _ => decide (port ∉ held)⟩) }

def twoSettings (first second : Nat) : Settings :=
  ((∅ : Settings).insert "a".toList (.number first)).insert "b".toList (.number second)

theorem settlePorts_settles_next :
    Settled (machineWith [8080]) true (twoSettings 8080 9000)
      (settlePorts twoPorts (twoSettings 8080 9000) (machineWith [8080]) true).1
      twoPorts.settings [⟨"a".toList, 8080, 8081⟩] :=
  ((@settlePorts_settles twoPorts (by decide) _ noteMachine (twoSettings 8080 9000)
    true).1 _ _ rfl).1

/-- A port that was chosen above its default goes on from there, not to the least free one above
the default; and where the second port is refused the first one has moved. -/
theorem not_settlePorts_least :
    (settlePorts twoPorts (twoSettings 8085 9000) (machineWith [8085]) true).2 =
        .ok [⟨"a".toList, 8085, 8086⟩] ∧
      (machineWith [8085]).free 8081 .tcp = true ∧
    (settlePorts twoPorts (twoSettings 8080 20000) (machineWith [8080, 20000]) true).2 =
        .error ⟨"b".toList, "portTaken".toList⟩ ∧
      (settlePorts twoPorts (twoSettings 8080 20000)
          (machineWith [8080, 20000]) true).1["a".toList]? ≠
        (twoSettings 8080 20000)["a".toList]? := by
  refine ⟨rfl, rfl, rfl, ?_⟩
  decide

end ServerBox.Monitor.Manifest
