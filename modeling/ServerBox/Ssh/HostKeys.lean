import ServerBox.Std.Base64
import ServerBox.Std.Table
import ServerBox.Std.Utf8
import Mathlib

/-!
# Remembered host keys

`src/lib/core/ssh/host_keys.dart`: `HostKeyVerifier`, the queue of changes to the remembered
fingerprints, and the ways to forget them. Every verifier works on a copy of what was remembered
when it was made.

What a verifier stores after a question was accepted by the user; but a fingerprint in an old
format is rewritten and stored without one, and a copy may be older than a forget.
-/

namespace ServerBox.Ssh

open ServerBox.Std

/-! ### Storage keys -/

def hostKeyStorageKey (serverId keyType : Text) : Text := serverId ++ ':' :: ':' :: keyType

/-- What is before and after the last `::`. -/
def lastSeparator : Text → Option (Text × Text)
  | [] => none
  | char :: rest =>
      match lastSeparator rest with
      | some (before, after) => some (char :: before, after)
      | none => if char = ':' ∧ rest.head? = some ':' then some ([], rest.tail) else none

/-- `splitHostKeyStorageKey`. -/
def splitHostKeyStorageKey (storageKey : Text) : Text × Text :=
  (lastSeparator storageKey).getD (storageKey, [])

theorem lastSeparator_of_not_mem {text : Text} (plain : ':' ∉ text) : lastSeparator text = none := by
  induction text with
  | nil => rfl
  | cons char rest inductionHypothesis =>
      obtain ⟨other, plainRest⟩ := not_or.mp (List.mem_cons.not.mp plain)
      rw [lastSeparator, inductionHypothesis plainRest]
      exact if_neg fun colon => other colon.1.symm

/-- A key type has no colon, so a storage key is read back as the server and the type it was
built from, whatever the server's id. -/
theorem splitHostKeyStorageKey_hostKeyStorageKey {serverId keyType : Text}
    (plain : ':' ∉ keyType) :
    splitHostKeyStorageKey (hostKeyStorageKey serverId keyType) = (serverId, keyType) := by
  have separator : lastSeparator (hostKeyStorageKey serverId keyType) =
      some (serverId, keyType) := by
    rw [hostKeyStorageKey]
    induction serverId with
    | nil =>
        have second : lastSeparator (':' :: keyType) = none := by
          rw [lastSeparator, lastSeparator_of_not_mem plain]
          refine if_neg fun colon => plain ?_
          exact List.mem_of_mem_head? colon.2
        rw [List.nil_append, lastSeparator, second]
        exact if_pos ⟨rfl, rfl⟩
    | cons char rest inductionHypothesis =>
        rw [List.cons_append, lastSeparator, inductionHypothesis]
  rw [splitHostKeyStorageKey, separator]
  rfl

/-! ### Fingerprints -/

/-- `_openSshSha256`: `SHA256:` and 43 symbols of base64. -/
def isOpenSshSha256 (text : Text) : Bool :=
  match Text.stripPrefix "SHA256:" text with
  | some digest =>
      digest.length = 43 && digest.all fun char => char.isAlphanum || char = '+' || char = '/'
  | none => false

def isHexDigit (char : Char) : Bool :=
  char.isDigit || ('a' ≤ char && char ≤ 'f') || ('A' ≤ char && char ≤ 'F')

/-- The parts of `_colonHexFingerprint`: two digits each, with colons in between. -/
def colonHexParts (text : Text) : Option (List Text) :=
  let parts := text.splitOn ':'
  if parts.all fun part => part.length = 2 && part.all isHexDigit then some parts else none

def hexDigitValue (char : Char) : Nat :=
  if char.isDigit then char.toNat - '0'.toNat
  else if 'a' ≤ char then char.toNat - 'a'.toNat + 10
  else char.toNat - 'A'.toNat + 10

def hexOctet (part : Text) : UInt8 :=
  UInt8.ofNat (part.foldl (fun value char => value * 16 + hexDigitValue char) 0)

def fingerprintToHex (octets : List UInt8) : Text :=
  Text.join ':' (octets.map fun octet =>
    [Nat.digitChar (octet.toNat / 16), Nat.digitChar (octet.toNat % 16)])

/-- The octets as text, without a byte order mark. Where they are not UTF-8 there is a U+FFFD in
it, which no fingerprint has: the `FormatException` is the same as no match. -/
def decodedText (octets : List UInt8) : Text :=
  Utf8.decode (if octets.take 3 = [0xef, 0xbb, 0xbf] then octets.drop 3 else octets)

def sha256Text (octets : List UInt8) : Text :=
  "SHA256:".toList ++ (Base64.encode Base64.standard octets).filter (· ≠ '=')

def fingerprintToOpenSsh (fingerprint : List UInt8) : Text :=
  if isOpenSshSha256 (decodedText fingerprint) then decodedText fingerprint
  else if fingerprint.length = 32 then sha256Text fingerprint
  else "MD5:".toList ++ fingerprintToHex fingerprint

def normalizeStoredFingerprint (fingerprint : Text) : Text :=
  if isOpenSshSha256 fingerprint || (Text.stripPrefix "MD5:" fingerprint).isSome then fingerprint
  else
    match colonHexParts fingerprint with
    | none => fingerprint
    | some parts =>
        let octets := parts.map hexOctet
        if isOpenSshSha256 (decodedText octets) then decodedText octets
        else if octets.length = 32 then sha256Text octets
        else if octets.length = 16 then "MD5:".toList ++ fingerprintToHex octets
        else fingerprint

theorem isOpenSshSha256_append (digest : Text) :
    isOpenSshSha256 ("SHA256:".toList ++ digest) =
      (digest.length = 43 && digest.all fun char => char.isAlphanum || char = '+' || char = '/') := by
  unfold isOpenSshSha256
  rw [Text.stripPrefix_append]

theorem isSymbol_of_value {char : Char} (isValue : Base64.standard.value char ≠ none) :
    (char.isAlphanum || char = '+' || char = '/') = true := by
  by_contra other
  simp only [Bool.or_eq_true, decide_eq_true_eq, not_or, Char.isAlphanum, Char.isAlpha,
    Bool.not_eq_true] at other
  obtain ⟨⟨⟨⟨upper, lower⟩, digit⟩, plus⟩, slash⟩ := other
  refine isValue ?_
  simp [Base64.standard, Base64.valueOf, upper, lower, digit, plus, slash]

theorem isOpenSshSha256_sha256Text {octets : List UInt8} (digest : octets.length = 32) :
    isOpenSshSha256 (sha256Text octets) = true := by
  have symbols (char : Char)
      (isSymbol : char ∈ (Base64.encode Base64.standard octets).filter (· ≠ '=')) :
      (char.isAlphanum || char = '+' || char = '/') = true := by
    obtain ⟨written, notPad⟩ := List.mem_filter.mp isSymbol
    exact isSymbol_of_value fun foreign =>
      Base64.Foreign.not_mem_encode ⟨foreign, of_decide_eq_true notPad⟩ octets written
  have length : ((Base64.encode Base64.standard octets).filter (· ≠ '=')).length = 43 := by
    rw [Base64.length_unpadded, digest]
  refine (isOpenSshSha256_append _).trans ?_
  exact Bool.and_eq_true_iff.mpr ⟨decide_eq_true length, List.all_eq_true.mpr symbols⟩

/-- A fingerprint is rewritten to the current format, or not at all. -/
theorem of_normalizeStoredFingerprint (fingerprint : Text) :
    normalizeStoredFingerprint fingerprint = fingerprint ∨
      isOpenSshSha256 (normalizeStoredFingerprint fingerprint) = true ∨
      (Text.stripPrefix "MD5:" (normalizeStoredFingerprint fingerprint)).isSome = true := by
  rw [normalizeStoredFingerprint]
  split
  next => exact .inl rfl
  next =>
      split
      next => exact .inl rfl
      next parts _ =>
          simp only
          split
          next formatted => exact .inr (.inl formatted)
          next =>
              split
              next digest => exact .inr (.inl (isOpenSshSha256_sha256Text digest))
              next =>
                  split
                  next => exact .inr (.inr (by rw [Text.stripPrefix_append]; rfl))
                  next => exact .inl rfl

/-- What was rewritten stays as it is. -/
theorem normalizeStoredFingerprint_idem (fingerprint : Text) :
    normalizeStoredFingerprint (normalizeStoredFingerprint fingerprint) =
      normalizeStoredFingerprint fingerprint := by
  rcases of_normalizeStoredFingerprint fingerprint with same | current
  · exact congrArg _ same
  · have formatted : (isOpenSshSha256 (normalizeStoredFingerprint fingerprint) ||
        (Text.stripPrefix "MD5:" (normalizeStoredFingerprint fingerprint)).isSome) = true :=
      Bool.or_eq_true_iff.mpr current
    generalize normalizeStoredFingerprint fingerprint = rewritten at formatted
    rw [normalizeStoredFingerprint, if_pos formatted]

/-! ### Verifiers and the queue -/

/-- A call that forgets: `forgetHostKey`, or `forgetHostKeyFingerprints` of a server. -/
inductive Forget where
  | key (storageKey : Text)
  | server (serverId : Text)
deriving DecidableEq, Repr

/-- Whether an entry is forgotten. An empty id forgets none. -/
def Forget.covers : Forget → Text → Bool
  | .key storageKey, other => other = storageKey
  | .server serverId, other => !serverId.isEmpty && (splitHostKeyStorageKey other).1 = serverId

/-- A change of the remembered fingerprints, in the queue. -/
inductive HostKeyWrite where
  | persist (storageKey fingerprint : Text)
  | forget (forgotten : Forget)
deriving DecidableEq, Repr

/-- `HostKeyVerifier`. Kept besides: the forgets that its cache does not reflect. -/
structure HostKeyVerifier where
  serverId : Text
  cache : Table Text Text
  unseen : List Forget

/-- A question before the user: whose it is, and what is to be stored if it is accepted. -/
structure HostKeyPrompt where
  verifier : Nat
  storageKey : Text
  fingerprint : Text
deriving DecidableEq, Repr

/-- A call of `persistCallback` that did not reach the queue yet. Kept besides: the forgets since
the user accepted the fingerprint, or that the cache it was copied from does not reflect. -/
structure Persist where
  storageKey : Text
  fingerprint : Text
  unseen : List Forget
deriving DecidableEq, Repr

/-- What the user did: accepted a fingerprint, or forgot. -/
inductive HostKeyAction where
  | accepted (storageKey fingerprint : Text)
  | forgot (forgotten : Forget)
deriving DecidableEq, Repr

/-- What is stored, the queue, the verifiers with their questions and persists, and the user's
actions so far. -/
structure KnownHosts where
  stored : Table Text Text
  queue : List HostKeyWrite := []
  verifiers : List HostKeyVerifier := []
  prompts : List HostKeyPrompt := []
  persists : List Persist := []
  log : List HostKeyAction := []

/-- What a verifier's cache is copied from: what is stored, nothing where that cannot be read, or
the cache of the connection that this one is a jump of. -/
inductive CacheSource where
  | stored
  | unreadable
  | verifier (place : Nat)
deriving DecidableEq, Repr

inductive KnownHostsEvent where
  | make (serverId : Text) (source : CacheSource)
  | verify (verifier : Nat) (keyType : Text) (fingerprint : List UInt8)
  | answer (prompt : Nat) (accepted : Bool)
  | enqueue (persist : Nat)
  | forget (forgotten : Forget)
  | write
deriving DecidableEq, Repr

/-- A queued change made. -/
def HostKeyWrite.apply (stored : Table Text Text) : HostKeyWrite → Table Text Text
  | .persist storageKey fingerprint => AList.insert storageKey fingerprint stored
  | .forget forgotten => stored.retainKeys fun storageKey => !forgotten.covers storageKey

/-- The forgets of a queue. -/
def forgetsOf (queue : List HostKeyWrite) : List Forget :=
  queue.filterMap fun write =>
    match write with
    | .persist _ _ => none
    | .forget forgotten => some forgotten

namespace KnownHosts

def make (state : KnownHosts) (serverId : Text) (source : CacheSource) : KnownHosts :=
  let copied : Option (Table Text Text × List Forget) :=
    match source with
    | .stored => some (state.stored, forgetsOf state.queue)
    | .unreadable => some (∅, [])
    | .verifier place => state.verifiers[place]?.map fun verifier =>
        (verifier.cache, verifier.unseen)
  match copied with
  | some (cache, unseen) =>
      { state with verifiers := state.verifiers ++ [⟨serverId, cache, unseen⟩] }
  | none => state

/-- A verifier's cache, written to. -/
def remember (state : KnownHosts) (place : Nat) (storageKey fingerprint : Text) : KnownHosts :=
  { state with
    verifiers := state.verifiers.modify place fun verifier =>
      { verifier with cache := AList.insert storageKey fingerprint verifier.cache } }

/-- `HostKeyVerifier.call`, up to the question. -/
def verify (state : KnownHosts) (place : Nat) (keyType : Text) (octets : List UInt8) :
    KnownHosts :=
  match state.verifiers[place]? with
  | none => state
  | some verifier =>
      let storageKey := hostKeyStorageKey verifier.serverId keyType
      let fingerprint := fingerprintToOpenSsh octets
      let asks (state : KnownHosts) : KnownHosts :=
        { state with prompts := state.prompts ++ [⟨place, storageKey, fingerprint⟩] }
      match verifier.cache.lookup storageKey with
      | none => asks state
      | some stored =>
          let existing := normalizeStoredFingerprint stored
          let migrated :=
            if existing = stored then state
            else
              { state.remember place storageKey existing with
                persists := state.persists ++ [⟨storageKey, existing, verifier.unseen⟩] }
          if existing = fingerprint then migrated else asks migrated

/-- The rest of `HostKeyVerifier.call`, once the user answered. -/
def answer (state : KnownHosts) (place : Nat) (accepted : Bool) : KnownHosts :=
  match state.prompts[place]? with
  | none => state
  | some prompt =>
      let answered := { state with prompts := state.prompts.eraseIdx place }
      if accepted then
        { answered.remember prompt.verifier prompt.storageKey prompt.fingerprint with
          persists := state.persists ++ [⟨prompt.storageKey, prompt.fingerprint, []⟩]
          log := state.log ++ [.accepted prompt.storageKey prompt.fingerprint] }
      else answered

/-- `persistHostKeyFingerprint`. -/
def enqueue (state : KnownHosts) (place : Nat) : KnownHosts :=
  match state.persists[place]? with
  | none => state
  | some persist =>
      { state with
        persists := state.persists.eraseIdx place
        queue := state.queue ++ [.persist persist.storageKey persist.fingerprint] }

/-- `forgetHostKey` and `forgetHostKeyFingerprints`. -/
def forget (state : KnownHosts) (forgotten : Forget) : KnownHosts :=
  { state with
    queue := state.queue ++ [.forget forgotten]
    verifiers := state.verifiers.map fun verifier =>
      { verifier with unseen := verifier.unseen ++ [forgotten] }
    persists := state.persists.map fun persist =>
      { persist with unseen := persist.unseen ++ [forgotten] }
    log := state.log ++ [.forgot forgotten] }

/-- The first change of the queue made. -/
def write (state : KnownHosts) : KnownHosts :=
  match state.queue with
  | [] => state
  | first :: queue => { state with stored := first.apply state.stored, queue := queue }

def step (state : KnownHosts) : KnownHostsEvent → KnownHosts
  | .make serverId source => state.make serverId source
  | .verify place keyType octets => state.verify place keyType octets
  | .answer place accepted => state.answer place accepted
  | .enqueue place => state.enqueue place
  | .forget forgotten => state.forget forgotten
  | .write => state.write

def run (state : KnownHosts) (events : List KnownHostsEvent) : KnownHosts :=
  events.foldl step state

end KnownHosts

/-! ### What vouches for an entry -/

/-- Whether a fingerprint is another one, rewritten or not. -/
def Rewritten (original fingerprint : Text) : Prop :=
  fingerprint = original ∨ fingerprint = normalizeStoredFingerprint original

theorem Rewritten.normalize {original fingerprint : Text}
    (rewritten : Rewritten original fingerprint) :
    Rewritten original (normalizeStoredFingerprint fingerprint) := by
  rcases rewritten with rfl | rfl
  · exact .inr rfl
  · exact .inr (normalizeStoredFingerprint_idem original)

/-- Whether no forget among the user's actions covers an entry. -/
def Unforgotten (storageKey : Text) (actions : List HostKeyAction) : Prop :=
  ∀ forgotten, .forgot forgotten ∈ actions → forgotten.covers storageKey = false

/-- Whether an entry was accepted by the user after the last forget that covers it, or stored at
the start and not forgotten since. -/
def Vouched (start : Table Text Text) (log : List HostKeyAction)
    (storageKey fingerprint : Text) : Prop :=
  (∃ before after original, log = before ++ .accepted storageKey original :: after ∧
    Rewritten original fingerprint ∧ Unforgotten storageKey after) ∨
  (∃ original, start.lookup storageKey = some original ∧ Rewritten original fingerprint ∧
    Unforgotten storageKey log)

/-- Whether an entry is vouched for, or about to be forgotten. -/
def Backed (start : Table Text Text) (log : List HostKeyAction) (unseen : List Forget)
    (storageKey fingerprint : Text) : Prop :=
  (∃ forgotten ∈ unseen, forgotten.covers storageKey = true) ∨
    Vouched start log storageKey fingerprint

variable {start : Table Text Text} {log : List HostKeyAction} {unseen : List Forget}
  {storageKey fingerprint : Text}

theorem Unforgotten.append {actions more : List HostKeyAction}
    (first : Unforgotten storageKey actions) (later : Unforgotten storageKey more) :
    Unforgotten storageKey (actions ++ more) := fun forgotten isForgot =>
  (List.mem_append.mp isForgot).elim (first forgotten) (later forgotten)

/-- What is vouched for stays so while no forget covers it. -/
theorem Vouched.append (vouched : Vouched start log storageKey fingerprint)
    {more : List HostKeyAction} (kept : Unforgotten storageKey more) :
    Vouched start (log ++ more) storageKey fingerprint := by
  rcases vouched with ⟨before, after, original, rfl, rewritten, unforgotten⟩ |
    ⟨original, held, rewritten, unforgotten⟩
  · refine .inl ⟨before, after ++ more, original, ?_, rewritten, unforgotten.append kept⟩
    rw [List.append_assoc, List.cons_append]
  · exact .inr ⟨original, held, rewritten, unforgotten.append kept⟩

theorem Vouched.normalize (vouched : Vouched start log storageKey fingerprint) :
    Vouched start log storageKey (normalizeStoredFingerprint fingerprint) := by
  rcases vouched with ⟨before, after, original, isLog, rewritten, unforgotten⟩ |
    ⟨original, held, rewritten, unforgotten⟩
  · exact .inl ⟨before, after, original, isLog, rewritten.normalize, unforgotten⟩
  · exact .inr ⟨original, held, rewritten.normalize, unforgotten⟩

theorem vouched_accepted (start : Table Text Text) (log : List HostKeyAction)
    (storageKey fingerprint : Text) :
    Vouched start (log ++ [.accepted storageKey fingerprint]) storageKey fingerprint :=
  .inl ⟨log, [], fingerprint, rfl, .inl rfl, fun _ isForgot => absurd isForgot List.not_mem_nil⟩

theorem Backed.accepted (backed : Backed start log unseen storageKey fingerprint)
    (key accepted : Text) :
    Backed start (log ++ [.accepted key accepted]) unseen storageKey fingerprint := by
  refine backed.imp_right fun vouched => vouched.append fun forgotten isForgot => ?_
  cases List.mem_singleton.mp isForgot

/-- What is not reflected yet includes the forget just made. -/
theorem Backed.forgot (backed : Backed start log unseen storageKey fingerprint)
    (forgotten : Forget) :
    Backed start (log ++ [.forgot forgotten]) (unseen ++ [forgotten]) storageKey fingerprint := by
  rcases backed with ⟨earlier, isUnseen, covers⟩ | vouched
  · exact .inl ⟨earlier, List.mem_append_left _ isUnseen, covers⟩
  · cases covers : forgotten.covers storageKey with
    | true => exact .inl ⟨forgotten, List.mem_append_right _ List.mem_cons_self, covers⟩
    | false =>
        refine .inr (vouched.append fun other isForgot => ?_)
        cases List.mem_singleton.mp isForgot
        exact covers

theorem Backed.normalize (backed : Backed start log unseen storageKey fingerprint) :
    Backed start log unseen storageKey (normalizeStoredFingerprint fingerprint) :=
  backed.imp_right Vouched.normalize

theorem Backed.mono (backed : Backed start log unseen storageKey fingerprint)
    {more : List Forget} (within : ∀ forgotten ∈ unseen, forgotten ∈ more) :
    Backed start log more storageKey fingerprint :=
  backed.imp_left fun ⟨forgotten, isUnseen, covers⟩ => ⟨forgotten, within forgotten isUnseen, covers⟩

/-! ### What every state of a run keeps -/

theorem forgetsOf_append (first later : List HostKeyWrite) :
    forgetsOf (first ++ later) = forgetsOf first ++ forgetsOf later :=
  List.filterMap_append

/-- Whether each persist of a queue is vouched for, or to be forgotten by what is queued later. -/
def QueueBacked (start : Table Text Text) (log : List HostKeyAction) : List HostKeyWrite → Prop
  | [] => True
  | .persist storageKey fingerprint :: queue =>
      Backed start log (forgetsOf queue) storageKey fingerprint ∧ QueueBacked start log queue
  | .forget _ :: queue => QueueBacked start log queue

theorem QueueBacked.accepted {queue : List HostKeyWrite} (backed : QueueBacked start log queue)
    (key accepted : Text) : QueueBacked start (log ++ [.accepted key accepted]) queue := by
  induction queue with
  | nil => trivial
  | cons first queue inductionHypothesis =>
      cases first with
      | persist => exact ⟨backed.1.accepted key accepted, inductionHypothesis backed.2⟩
      | forget => exact inductionHypothesis backed

theorem QueueBacked.forgot {queue : List HostKeyWrite} (backed : QueueBacked start log queue)
    (forgotten : Forget) :
    QueueBacked start (log ++ [.forgot forgotten]) (queue ++ [.forget forgotten]) := by
  induction queue with
  | nil => trivial
  | cons first queue inductionHypothesis =>
      cases first with
      | persist =>
          rw [List.cons_append, QueueBacked, forgetsOf_append]
          exact ⟨backed.1.forgot forgotten, inductionHypothesis backed.2⟩
      | forget => exact inductionHypothesis backed

theorem QueueBacked.persist {queue : List HostKeyWrite} (backed : QueueBacked start log queue)
    (vouched : Vouched start log storageKey fingerprint) :
    QueueBacked start log (queue ++ [.persist storageKey fingerprint]) := by
  induction queue with
  | nil => exact ⟨.inr vouched, trivial⟩
  | cons first queue inductionHypothesis =>
      cases first with
      | persist =>
          rw [List.cons_append, QueueBacked, forgetsOf_append]
          exact ⟨backed.1.mono fun _ isForget => List.mem_append_left _ isForget,
            inductionHypothesis backed.2⟩
      | forget => exact inductionHypothesis backed

namespace KnownHosts

structure Inv (start : Table Text Text) (state : KnownHosts) : Prop where
  stored : ∀ storageKey fingerprint, state.stored.lookup storageKey = some fingerprint →
    Backed start state.log (forgetsOf state.queue) storageKey fingerprint
  queue : QueueBacked start state.log state.queue
  verifiers : ∀ verifier ∈ state.verifiers, ∀ storageKey fingerprint,
    verifier.cache.lookup storageKey = some fingerprint →
      Backed start state.log verifier.unseen storageKey fingerprint
  persists : ∀ persist ∈ state.persists,
    Backed start state.log persist.unseen persist.storageKey persist.fingerprint

theorem inv_start (start : Table Text Text) : Inv start { stored := start } where
  stored _ fingerprint held := .inr (.inr ⟨fingerprint, held, .inl rfl, nofun⟩)
  queue := trivial
  verifiers := nofun
  persists := nofun

variable {state : KnownHosts}

theorem inv_make (inv : Inv start state) (serverId : Text) (source : CacheSource) :
    Inv start (state.make serverId source) := by
  have added (cache : Table Text Text) (unseen : List Forget)
      (backed : ∀ storageKey fingerprint, cache.lookup storageKey = some fingerprint →
        Backed start state.log unseen storageKey fingerprint) :
      Inv start { state with verifiers := state.verifiers ++ [⟨serverId, cache, unseen⟩] } := by
    refine ⟨inv.stored, inv.queue, fun verifier isVerifier => ?_, inv.persists⟩
    rcases List.mem_append.mp isVerifier with earlier | last
    · exact inv.verifiers verifier earlier
    · rw [List.mem_singleton.mp last]
      exact backed
  cases source with
  | stored => exact added state.stored _ inv.stored
  | unreadable => exact added ∅ [] fun _ _ held => by cases held
  | verifier place =>
      cases isVerifier : state.verifiers[place]? with
      | none =>
          have unmade : state.make serverId (.verifier place) = state := by
            simp [make, isVerifier]
          rw [unmade]
          exact inv
      | some verifier =>
          have made : state.make serverId (.verifier place) = { state with
              verifiers := state.verifiers ++ [⟨serverId, verifier.cache, verifier.unseen⟩] } := by
            simp [make, isVerifier]
          rw [made]
          exact added _ _ (inv.verifiers verifier (List.mem_of_getElem? isVerifier))

/-- A verifier's cache may be given what is vouched for. -/
theorem inv_remember (inv : Inv start state) (place : Nat)
    (backed : ∀ verifier, state.verifiers[place]? = some verifier →
      Backed start state.log verifier.unseen storageKey fingerprint) :
    Inv start (state.remember place storageKey fingerprint) := by
  refine ⟨inv.stored, inv.queue, fun verifier isVerifier key other held => ?_, inv.persists⟩
  obtain ⟨index, isPlace⟩ := List.mem_iff_getElem?.mp isVerifier
  rw [remember] at isPlace
  by_cases same : place = index
  · subst same
    rw [List.getElem?_modify_eq] at isPlace
    obtain ⟨before, isBefore, rfl⟩ := Option.map_eq_some_iff.mp isPlace
    simp only at held
    rw [Table.lookup_insert_ite] at held
    split at held
    next isKey =>
        rw [isKey, ← Option.some.inj held]
        exact backed before isBefore
    next => exact inv.verifiers before (List.mem_of_getElem? isBefore) key other held
  · rw [List.getElem?_modify_ne _ _ same] at isPlace
    exact inv.verifiers verifier (List.mem_of_getElem? isPlace) key other held

theorem inv_verify (inv : Inv start state) (place : Nat) (keyType : Text)
    (octets : List UInt8) : Inv start (state.verify place keyType octets) := by
  have asks {asked : KnownHosts} (kept : Inv start asked) (prompts : List HostKeyPrompt) :
      Inv start { asked with prompts := prompts } :=
    ⟨kept.stored, kept.queue, kept.verifiers, kept.persists⟩
  rw [verify]
  cases isVerifier : state.verifiers[place]? with
  | none => exact inv
  | some verifier =>
      simp only
      cases held : verifier.cache.lookup (hostKeyStorageKey verifier.serverId keyType) with
      | none => exact asks inv _
      | some stored =>
          have backed := (inv.verifiers verifier (List.mem_of_getElem? isVerifier) _ _
            held).normalize
          have migrated : Inv start
              (if normalizeStoredFingerprint stored = stored then state
              else
                { state.remember place (hostKeyStorageKey verifier.serverId keyType)
                    (normalizeStoredFingerprint stored) with
                  persists := state.persists ++ [⟨hostKeyStorageKey verifier.serverId keyType,
                    normalizeStoredFingerprint stored, verifier.unseen⟩] }) := by
            split
            next => exact inv
            next =>
                have remembered := inv_remember inv place fun other isOther => by
                  obtain rfl := Option.some.inj (isVerifier.symm.trans isOther)
                  exact backed
                refine ⟨remembered.stored, remembered.queue, remembered.verifiers,
                  fun persist isPersist => ?_⟩
                rcases List.mem_append.mp isPersist with earlier | last
                · exact inv.persists persist earlier
                · rw [List.mem_singleton.mp last]
                  exact backed
          simp only
          split
          next => exact migrated
          next => exact asks migrated _

theorem inv_answer (inv : Inv start state) (place : Nat) (accepted : Bool) :
    Inv start (state.answer place accepted) := by
  rw [answer]
  split
  next => exact inv
  next prompt isPrompt =>
      cases accepted with
      | false => exact ⟨inv.stored, inv.queue, inv.verifiers, inv.persists⟩
      | true =>
          have vouched := vouched_accepted start state.log prompt.storageKey prompt.fingerprint
          have logged : Inv start { state with
              prompts := state.prompts.eraseIdx place
              log := state.log ++ [.accepted prompt.storageKey prompt.fingerprint] } :=
            ⟨fun key fingerprint held => (inv.stored key fingerprint held).accepted _ _,
              inv.queue.accepted _ _,
              fun verifier isVerifier key fingerprint held =>
                (inv.verifiers verifier isVerifier key fingerprint held).accepted _ _,
              fun persist isPersist => (inv.persists persist isPersist).accepted _ _⟩
          have remembered := inv_remember logged prompt.verifier fun _ _ => .inr vouched
          refine ⟨remembered.stored, remembered.queue, remembered.verifiers,
            fun persist isPersist => ?_⟩
          rcases List.mem_append.mp isPersist with earlier | last
          · exact logged.persists persist earlier
          · rw [List.mem_singleton.mp last]
            exact .inr vouched

theorem inv_forget (inv : Inv start state) (forgotten : Forget) :
    Inv start (state.forget forgotten) := by
  refine ⟨fun key fingerprint held => ?_, inv.queue.forgot forgotten,
    fun verifier isVerifier key fingerprint held => ?_, fun persist isPersist => ?_⟩
  · rw [forget, forgetsOf_append]
    exact (inv.stored key fingerprint held).forgot forgotten
  · obtain ⟨before, isBefore, rfl⟩ := List.mem_map.mp isVerifier
    exact (inv.verifiers before isBefore key fingerprint held).forgot forgotten
  · obtain ⟨before, isBefore, rfl⟩ := List.mem_map.mp isPersist
    exact (inv.persists before isBefore).forgot forgotten

theorem inv_write (inv : Inv start state) : Inv start state.write := by
  have stored := inv.stored
  have queue := inv.queue
  rw [write]
  cases isQueue : state.queue with
  | nil => exact inv
  | cons first rest =>
      rw [isQueue] at stored queue
      cases first with
      | persist storageKey fingerprint =>
          refine ⟨fun key other held => ?_, queue.2, inv.verifiers, inv.persists⟩
          change (AList.insert storageKey fingerprint state.stored).lookup key = some other at held
          rw [Table.lookup_insert_ite] at held
          split at held
          next isKey =>
              rw [isKey, ← Option.some.inj held]
              exact queue.1
          next => exact stored key other held
      | forget forgotten =>
          refine ⟨fun key fingerprint held => ?_, queue, inv.verifiers, inv.persists⟩
          change (state.stored.retainKeys fun key => !forgotten.covers key).lookup key =
            some fingerprint at held
          rw [Table.lookup_retainKeys] at held
          split at held
          next kept =>
              refine (stored key fingerprint held).imp_left fun ⟨other, isForget, covers⟩ => ?_
              rcases List.mem_cons.mp isForget with rfl | later
              · rw [covers] at kept
                cases kept
              · exact ⟨other, later, covers⟩
          next => cases held

/-- Whether a step queues no persist that a forget covers which it does not reflect. -/
def Fresh (state : KnownHosts) : KnownHostsEvent → Prop
  | .enqueue place => ∀ persist, state.persists[place]? = some persist →
      ∀ forgotten ∈ persist.unseen, forgotten.covers persist.storageKey = false
  | _ => True

/-- Whether no step of a run does. -/
def AllFresh (state : KnownHosts) : List KnownHostsEvent → Prop
  | [] => True
  | event :: events => state.Fresh event ∧ (state.step event).AllFresh events

theorem inv_enqueue (inv : Inv start state) {place : Nat} (fresh : state.Fresh (.enqueue place)) :
    Inv start (state.enqueue place) := by
  rw [enqueue]
  split
  next => exact inv
  next persist isPersist =>
      have vouched : Vouched start state.log persist.storageKey persist.fingerprint := by
        refine (inv.persists persist (List.mem_of_getElem? isPersist)).resolve_left ?_
        rintro ⟨forgotten, isUnseen, covers⟩
        rw [fresh persist isPersist forgotten isUnseen] at covers
        cases covers
      refine ⟨fun key fingerprint held => ?_, inv.queue.persist vouched, inv.verifiers,
        fun other isOther => inv.persists other (List.mem_of_mem_eraseIdx isOther)⟩
      rw [forgetsOf_append]
      exact (inv.stored key fingerprint held).mono fun _ isForget =>
        List.mem_append_left _ isForget

theorem inv_step (inv : Inv start state) {event : KnownHostsEvent} (fresh : state.Fresh event) :
    Inv start (state.step event) := by
  cases event with
  | make serverId source => exact inv_make inv serverId source
  | verify place keyType octets => exact inv_verify inv place keyType octets
  | answer place accepted => exact inv_answer inv place accepted
  | enqueue place => exact inv_enqueue inv fresh
  | forget forgotten => exact inv_forget inv forgotten
  | write => exact inv_write inv

theorem inv_run (inv : Inv start state) {events : List KnownHostsEvent}
    (fresh : state.AllFresh events) : Inv start (state.run events) := by
  induction events generalizing state with
  | nil => exact inv
  | cons event events inductionHypothesis =>
      exact inductionHypothesis (inv_step inv fresh.1) fresh.2

/-- What was stored for one server in an old format, the digest alone. -/
def oldFormat : Table Text Text :=
  AList.singleton "a::rsa".toList "00:01:02:03:04:05:06:07:08:09:0a:0b:0c:0d:0e:0f".toList

/-- The server's key, met by a connection: its fingerprint is rewritten and stored. -/
def meets : List KnownHostsEvent :=
  [.verify 0 "rsa".toList [0, 1, 2, 3, 4, 5, 6, 7, 8, 9, 10, 11, 12, 13, 14, 15], .enqueue 0, .write]

end KnownHosts

end ServerBox.Ssh
