import ServerBox.Ssh.SocketHeadReads
import ServerBox.Std.Text

/-!
# The server's half of a SOCKS5 `CONNECT`

`Socks5.negotiate` of `src/lib/core/ssh/socks5.dart`, as a program that takes its greeting and its
request from a socket. Over a stream it comes to a target exactly where the stream starts with a
greeting and a request that can be served (`comes_negotiate`), however the stream is cut
(`negotiate_any_chunks`).
-/

namespace ServerBox.Ssh.Socks5

open ServerBox.Std

/-- `InternetAddress.address` of the platform, which is never empty. -/
structure Platform where
  address : Bytes → Text
  nonempty : ∀ bytes, address bytes ≠ []

/-- `Socks5Target`. -/
structure Target where
  host : Text
  port : Nat
deriving DecidableEq, Repr

def version : UInt8 := 0x05

def noAuth : UInt8 := 0x00

def noAcceptable : UInt8 := 0xFF

def connect : UInt8 := 0x01

def generalFailure : UInt8 := 0x01

def commandNotSupported : UInt8 := 0x07

def addressNotSupported : UInt8 := 0x08

def reply (code : UInt8) : Bytes := [version, code, 0x00, 0x01, 0, 0, 0, 0, 0, 0]

/-- `String.fromCharCodes` of bytes. -/
def fromCharCodes (bytes : Bytes) : Text := bytes.map fun byte => Char.ofNat byte.toNat

abbrev Negotiation := Taking UInt8 Bytes (Option Target)

variable (platform : Platform)

/-- The request, once its host is read. -/
def negotiatePort (command : UInt8) (host : Text) : Negotiation :=
  .take 2 fun portBytes =>
    let port := (portBytes.getD 0 0).toNat <<< 8 ||| (portBytes.getD 1 0).toNat
    if command ≠ connect then .say (reply commandNotSupported) (.give none)
    else if host.isEmpty ∨ port = 0 then .say (reply generalFailure) (.give none)
    else .give (some ⟨host, port⟩)

def negotiateRequest : Negotiation :=
  .take 4 fun request =>
    if request.getD 0 0 ≠ version then .give none
    else match request.getD 3 0 with
      | 0x01 => .take 4 fun bytes => negotiatePort (request.getD 1 0) (platform.address bytes)
      | 0x03 =>
          .take 1 fun length => .take (length.getD 0 0).toNat fun bytes =>
            negotiatePort (request.getD 1 0) (fromCharCodes bytes)
      | 0x04 => .take 16 fun bytes => negotiatePort (request.getD 1 0) (platform.address bytes)
      | _ => .say (reply addressNotSupported) (.give none)

def negotiate : Negotiation :=
  .take 2 fun greeting =>
    if greeting.getD 0 0 ≠ version then .give none
    else .take (greeting.getD 1 0).toNat fun methods =>
      if noAuth ∉ methods then .say [version, noAcceptable] (.give none)
      else .say [version, noAuth] (negotiateRequest platform)

/-! ### What can be served -/

/-- Where a request asks to be connected: an address, or a name. -/
inductive Destination where
  | v4 (bytes : Bytes) (whole : bytes.length = 4)
  | name (bytes : Bytes) (nonempty : bytes ≠ []) (short : bytes.length < 256)
  | v6 (bytes : Bytes) (whole : bytes.length = 16)

namespace Destination

def bytes : Destination → Bytes
  | v4 bytes _ => 0x01 :: bytes
  | name bytes _ _ => 0x03 :: .ofNat bytes.length :: bytes
  | v6 bytes _ => 0x04 :: bytes

def host : Destination → Text
  | v4 bytes _ => platform.address bytes
  | name bytes _ _ => fromCharCodes bytes
  | v6 bytes _ => platform.address bytes

end Destination

/-- A port, its higher byte first. -/
def portBytes (port : Nat) : Bytes := [.ofNat (port / 256), .ofNat (port % 256)]

/-- A greeting that offers no authentication, and a request to connect. -/
structure Connect where
  methods : Bytes
  few : methods.length < 256
  offered : noAuth ∈ methods
  reserved : UInt8
  destination : Destination
  port : Nat
  isPort : 0 < port ∧ port < 65536

namespace Connect

def greeting (request : Connect) : Bytes :=
  version :: .ofNat request.methods.length :: request.methods

def request (request : Connect) : Bytes :=
  version :: connect :: request.reserved :: request.destination.bytes ++ portBytes request.port

def bytes (request : Connect) : Bytes := request.greeting ++ request.request

def target (request : Connect) : Target := ⟨request.destination.host platform, request.port⟩

end Connect

/-! ### What is negotiated -/

variable {platform : Platform} {items left : Bytes} {target : Target}

/-- Two bytes are a number, the higher first. -/
theorem port_eq (high low : UInt8) :
    high.toNat <<< 8 ||| low.toNat = high.toNat * 256 + low.toNat := by
  rw [← Nat.shiftLeft_add_eq_or_of_lt low.toNat_lt, Nat.shiftLeft_eq]

theorem bytes_of_port {high low : UInt8} :
    [high, low] = portBytes (high.toNat * 256 + low.toNat) := by
  have small := low.toNat_lt
  have isHigh : (high.toNat * 256 + low.toNat) / 256 = high.toNat := by omega
  have isLow : (high.toNat * 256 + low.toNat) % 256 = low.toNat := by omega
  rw [portBytes, isHigh, isLow, UInt8.ofNat_toNat, UInt8.ofNat_toNat]

theorem comes_negotiatePort {command : UInt8} {host : Text} :
    (negotiatePort command host).Comes items (some target) left ↔
      command = connect ∧ host ≠ [] ∧ ∃ port, (0 < port ∧ port < 65536) ∧
        items = portBytes port ++ left ∧ target = ⟨host, port⟩ := by
  unfold negotiatePort
  rw [Taking.comes_take]
  constructor
  · rintro ⟨piece, rest, whole, rfl, comes⟩
    obtain ⟨high, low, rfl⟩ := List.length_eq_two.mp whole
    simp only [List.getD_cons_zero, List.getD_cons_succ, port_eq] at comes
    split at comes
    next => exact absurd (Taking.comes_give.mp (Taking.comes_say.mp comes)).1 (by simp)
    next isConnect =>
        split at comes
        next => exact absurd (Taking.comes_give.mp (Taking.comes_say.mp comes)).1 (by simp)
        next served =>
            obtain ⟨isTarget, rfl⟩ := Taking.comes_give.mp comes
            obtain ⟨isHost, isPort⟩ := not_or.mp served
            have highSmall := high.toNat_lt
            have lowSmall := low.toNat_lt
            refine ⟨not_not.mp isConnect, by simpa using isHost, high.toNat * 256 + low.toNat,
              by omega, ?_, (Option.some.inj isTarget).symm⟩
            rw [← bytes_of_port]
  · rintro ⟨rfl, isHost, port, isPort, rfl, rfl⟩
    refine ⟨_, left, rfl, rfl, ?_⟩
    have isNumber : (UInt8.ofNat (port / 256)).toNat * 256 + (UInt8.ofNat (port % 256)).toNat =
        port := by
      rw [UInt8.toNat_ofNat', UInt8.toNat_ofNat']
      omega
    have served : ¬ (host.isEmpty = true ∨ port = 0) := fun refused =>
      refused.elim (fun empty => isHost (List.isEmpty_iff.mp empty)) (by omega)
    simp only [portBytes, List.getD_cons_zero, List.getD_cons_succ, port_eq, isNumber]
    rw [if_neg (not_not.mpr rfl), if_neg served]
    exact Taking.comes_give.mpr ⟨rfl, rfl⟩

theorem comes_negotiateRequest :
    (negotiateRequest platform).Comes items (some target) left ↔
      ∃ (reserved : UInt8) (destination : Destination) (port : Nat),
        (0 < port ∧ port < 65536) ∧
        items = version :: connect :: reserved :: destination.bytes ++ portBytes port ++ left ∧
        target = ⟨destination.host platform, port⟩ := by
  unfold negotiateRequest
  rw [Taking.comes_take]
  constructor
  · rintro ⟨piece, rest, four, rfl, comes⟩
    obtain ⟨isVersion, command, reserved, type, rfl⟩ := List.length_eq_four.mp four
    simp only [List.getD_cons_zero, List.getD_cons_succ] at comes
    split at comes
    next => exact absurd (Taking.comes_give.mp comes).1 (by simp)
    next sameVersion =>
        obtain rfl := not_not.mp sameVersion
        split at comes
        next =>
            obtain ⟨bytes, rest, whole, rfl, ported⟩ := Taking.comes_take.mp comes
            obtain ⟨rfl, -, port, isPort, rfl, rfl⟩ := comes_negotiatePort.mp ported
            exact ⟨reserved, .v4 bytes whole, port, isPort, by simp [Destination.bytes], rfl⟩
        next =>
            obtain ⟨length, rest, single, rfl, named⟩ := Taking.comes_take.mp comes
            obtain ⟨length, rfl⟩ := List.length_eq_one_iff.mp single
            obtain ⟨bytes, rest, whole, rfl, ported⟩ := Taking.comes_take.mp named
            obtain ⟨rfl, nonempty, port, isPort, rfl, rfl⟩ := comes_negotiatePort.mp ported
            have isLength : bytes.length = length.toNat := whole
            refine ⟨reserved, .name bytes (by simpa [fromCharCodes] using nonempty)
              (isLength ▸ length.toNat_lt), port, isPort, ?_, rfl⟩
            simp [Destination.bytes, isLength]
        next =>
            obtain ⟨bytes, rest, whole, rfl, ported⟩ := Taking.comes_take.mp comes
            obtain ⟨rfl, -, port, isPort, rfl, rfl⟩ := comes_negotiatePort.mp ported
            exact ⟨reserved, .v6 bytes whole, port, isPort, by simp [Destination.bytes], rfl⟩
        next => exact absurd (Taking.comes_give.mp (Taking.comes_say.mp comes)).1 (by simp)
  · rintro ⟨reserved, destination, port, isPort, rfl, rfl⟩
    cases destination with
    | v4 bytes whole =>
        refine ⟨[version, connect, reserved, 0x01], bytes ++ (portBytes port ++ left), rfl, ?_, ?_⟩
        · simp [Destination.bytes]
        · exact Taking.comes_take.mpr ⟨bytes, _, whole, rfl, comes_negotiatePort.mpr
            ⟨rfl, platform.nonempty bytes, port, isPort, rfl, rfl⟩⟩
    | name bytes nonempty short =>
        have isLength : (UInt8.ofNat bytes.length).toNat = bytes.length := by
          rw [UInt8.toNat_ofNat', Nat.mod_eq_of_lt short]
        refine ⟨[version, connect, reserved, 0x03],
          .ofNat bytes.length :: bytes ++ (portBytes port ++ left), rfl, ?_, ?_⟩
        · simp [Destination.bytes]
        · refine Taking.comes_take.mpr
            ⟨[.ofNat bytes.length], bytes ++ (portBytes port ++ left), rfl, rfl, ?_⟩
          exact Taking.comes_take.mpr ⟨bytes, _, isLength.symm, rfl, comes_negotiatePort.mpr
            ⟨rfl, by simpa [fromCharCodes] using nonempty, port, isPort, rfl, rfl⟩⟩
    | v6 bytes whole =>
        refine ⟨[version, connect, reserved, 0x04], bytes ++ (portBytes port ++ left), rfl, ?_, ?_⟩
        · simp [Destination.bytes]
        · exact Taking.comes_take.mpr ⟨bytes, _, whole, rfl, comes_negotiatePort.mpr
            ⟨rfl, platform.nonempty bytes, port, isPort, rfl, rfl⟩⟩

/-- A stream comes to a target exactly where it starts with what can be served, and the payload
after that is left. -/
theorem comes_negotiate :
    (negotiate platform).Comes items (some target) left ↔
      ∃ request : Connect, items = request.bytes ++ left ∧ target = request.target platform := by
  unfold negotiate
  rw [Taking.comes_take]
  constructor
  · rintro ⟨piece, rest, two, rfl, comes⟩
    obtain ⟨isVersion, count, rfl⟩ := List.length_eq_two.mp two
    simp only [List.getD_cons_zero, List.getD_cons_succ] at comes
    split at comes
    next => exact absurd (Taking.comes_give.mp comes).1 (by simp)
    next sameVersion =>
        obtain rfl := not_not.mp sameVersion
        obtain ⟨methods, rest, whole, rfl, asked⟩ := Taking.comes_take.mp comes
        split at asked
        next => exact absurd (Taking.comes_give.mp (Taking.comes_say.mp asked)).1 (by simp)
        next offered =>
            obtain ⟨reserved, destination, port, isPort, rfl, rfl⟩ :=
              comes_negotiateRequest.mp (Taking.comes_say.mp asked)
            refine ⟨⟨methods, whole ▸ count.toNat_lt, not_not.mp offered, reserved, destination,
              port, isPort⟩, ?_, rfl⟩
            simp [Connect.bytes, Connect.greeting, Connect.request, whole]
  · rintro ⟨request, rfl, rfl⟩
    have isCount : (UInt8.ofNat request.methods.length).toNat = request.methods.length := by
      rw [UInt8.toNat_ofNat', Nat.mod_eq_of_lt request.few]
    refine ⟨[version, .ofNat request.methods.length], request.methods ++ (request.request ++ left),
      rfl, by simp [Connect.bytes, Connect.greeting], ?_⟩
    refine Taking.comes_take.mpr ⟨request.methods, request.request ++ left, isCount.symm, rfl, ?_⟩
    rw [if_neg (not_not.mpr request.offered), Taking.comes_say]
    exact comes_negotiateRequest.mpr
      ⟨request.reserved, request.destination, request.port, request.isPort,
        by simp [Connect.request], rfl⟩

/-- A handshake comes to what can be served of its stream, however that is cut into chunks and
whatever the order of the moves: any program takes slices of the stream one after another and
leaves the rest of it; a greeting and a request come to their target, with the payload left, and
any other stream to none. -/
theorem negotiate_any_chunks (platform : Platform) (chunks : List Bytes) (Error : Type) :
    (∀ (Message Value : Type) (program : Taking UInt8 Message Value),
      (program.run chunks.flatten).taken.flatten ++ (program.run chunks.flatten).left =
        chunks.flatten ∧
      ∀ session : Session Error Message Value, (Session.system program chunks).Reachable session →
        session.Follows (program.run chunks.flatten) ∧ session.Advances) ∧
    ∀ session : Session Error Bytes (Option Target),
      (Session.system (negotiate platform) chunks).Reachable session →
      (∀ (request : Connect) (payload : Bytes), chunks.flatten = request.bytes ++ payload →
        (∀ outcome, session.consumer.outcome = some outcome →
          outcome = some (some (request.target platform))) ∧
        session.restBytes <+: payload ∧ (session.Complete → session.restBytes = payload)) ∧
      ((∀ (request : Connect) (payload : Bytes), chunks.flatten ≠ request.bytes ++ payload) →
        ∀ target, session.consumer.outcome ≠ some (some (some target))) := by
  refine ⟨fun Message Value program => ⟨program.flatten_taken _, fun session reached =>
    Session.follows_advances reached⟩, fun session reached => ?_⟩
  obtain ⟨follows, -⟩ := Session.follows_advances reached
  constructor
  · intro request payload isStream
    obtain ⟨value, left⟩ := comes_negotiate.mpr ⟨request, isStream, rfl⟩
    refine ⟨fun outcome isOutcome => ?_, left ▸ follows.rest, fun complete => ?_⟩
    · rw [(follows.came outcome isOutcome).1, value]
    · rw [follows.complete complete, left]
  · intro unserved target isOutcome
    have value := (follows.came _ isOutcome).1
    obtain ⟨request, isStream, -⟩ := comes_negotiate.mp ⟨value.symm, rfl⟩
    exact unserved request _ isStream

end ServerBox.Ssh.Socks5
