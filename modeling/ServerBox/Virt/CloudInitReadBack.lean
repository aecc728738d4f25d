import ServerBox.Virt.CloudInitWritten

/-!
# A seed read back

A `VirtCloudInit` that `check` accepts is read back from the files that it is written into, and the
seed is not taken for a foreign one.
-/

namespace ServerBox.Virt

open ServerBox.Std VirtCloudInit

/-- What the app writes a seed of: a value that `check` accepts, with MACs in lower case, keys
trimmed, an expiry of a password only, and other NICs only beside a first one. -/
structure Seedable (ci : VirtCloudInit) : Prop where
  checked : ci.check = .ok ()
  lowercase : ∀ network ∈ ci.networks, asciiLowercase network.mac = network.mac
  trimmed : ∀ key ∈ ci.sshKeys, Text.trim key = key ∧ key ≠ []
  expires : ci.passwordExpire = true → ci.passwordHash.isSome
  ordered : ci.network = none → ci.extraNetworks = []

variable {ci : VirtCloudInit}

/-- What `check` asks of the hash and the host name. -/
theorem of_check (checked : ci.check = .ok ()) :
    (∀ hash, ci.passwordHash = some hash → isCryptHash hash = true) ∧ ci.hostname ≠ [] := by
  unfold check bad at checked
  split at checked
  next => cases checked
  split at checked
  next => cases checked
  next hashes =>
    split at checked
    next => cases checked
    split at checked
    next => cases checked
    next isName =>
      constructor
      · intro hash isHash
        simpa [isHash] using hashes
      · intro empty
        rw [empty] at isName
        exact isName rfl

/-! ### Values by their keys -/

theorem Yaml.get_cons (key first : Text) (value : Yaml) (entries : List (Text × Yaml)) :
    Yaml.get key (.map ((first, value) :: entries)) =
      if first = key then some value else Yaml.get key (.map entries) := by
  by_cases same : first = key
  · simp [Yaml.get, same]
  · simp [Yaml.get, same]

@[simp] theorem Yaml.get_nil (key : Text) : Yaml.get key (.map []) = none := rfl

@[simp] theorem Yaml.strs_seq (values : List Text) :
    Yaml.strs (.seq (values.map .str)) = some values := by
  rw [Yaml.strs, List.mapM_map]
  induction values with
  | nil => rfl
  | cons first values inductionHypothesis =>
      rw [List.mapM_cons, inductionHypothesis]
      rfl

/-! ### The network -/

theorem get_ofNameservers {key : Text} (dns search : List Text)
    (other : "nameservers".toList ≠ key) :
    Yaml.get key (.map (ofNameservers dns search)) = none := by
  rw [ofNameservers]
  split
  · rfl
  · rw [Yaml.get_cons, if_neg other, Yaml.get_nil]

theorem ipv4Of_nicEntries (network : VirtCiNetwork) :
    ipv4Of (.map (nicEntries network)) = some network.ipv4 := by
  obtain ⟨mac, ipv4, dns, search⟩ := network
  rcases ipv4 with - | ⟨address, - | gateway⟩
  case none =>
      have dhcp : (Yaml.get "dhcp4".toList
          (.map (nicEntries ⟨mac, none, dns, search⟩))).bind Yaml.asStr =
            some "true".toList := rfl
      have addresses : Yaml.get "addresses".toList (.map (nicEntries ⟨mac, none, dns, search⟩)) =
          none := get_ofNameservers dns search (by decide)
      have routes : Yaml.get "routes".toList (.map (nicEntries ⟨mac, none, dns, search⟩)) =
          none := get_ofNameservers dns search (by decide)
      rw [ipv4Of, dhcp, Option.bind_some, addresses, routes]
      rfl
  case some.none =>
      have dhcp : (Yaml.get "dhcp4".toList
          (.map (nicEntries ⟨mac, some ⟨address, none⟩, dns, search⟩))).bind Yaml.asStr =
            some "false".toList := rfl
      have addresses : Yaml.get "addresses".toList
          (.map (nicEntries ⟨mac, some ⟨address, none⟩, dns, search⟩)) =
            some (.seq ([address].map .str)) := rfl
      have routes : Yaml.get "routes".toList
          (.map (nicEntries ⟨mac, some ⟨address, none⟩, dns, search⟩)) = none :=
        get_ofNameservers dns search (by decide)
      rw [ipv4Of, dhcp, Option.bind_some, addresses, routes]
      rfl
  case some.some =>
      have dhcp : (Yaml.get "dhcp4".toList
          (.map (nicEntries ⟨mac, some ⟨address, some gateway⟩, dns, search⟩))).bind Yaml.asStr =
            some "false".toList := rfl
      have addresses : Yaml.get "addresses".toList
          (.map (nicEntries ⟨mac, some ⟨address, some gateway⟩, dns, search⟩)) =
            some (.seq ([address].map .str)) := rfl
      have routes : Yaml.get "routes".toList
          (.map (nicEntries ⟨mac, some ⟨address, some gateway⟩, dns, search⟩)) =
            some (.seq [.map [("to".toList, .str "0.0.0.0/0".toList),
              ("via".toList, .str gateway)]]) := rfl
      rw [ipv4Of, dhcp, Option.bind_some, addresses, routes]
      rfl

theorem listOf_ofList {key : String} (values : List Text) (others : List (Text × Yaml))
    (absent : Yaml.get key.toList (.map others) = none) :
    listOf key (.map (ofList key values ++ others)) = some values := by
  cases values with
  | nil =>
      change listOf key (.map others) = some []
      rw [listOf, absent]
  | cons first values =>
      have found : Yaml.get key.toList (.map (ofList key (first :: values) ++ others)) =
          some (.seq ((first :: values).map .str)) := by
        change Yaml.get key.toList (.map ((key.toList, _) :: others)) = _
        rw [Yaml.get_cons, if_pos rfl]
      rw [listOf, found]
      exact Yaml.strs_seq _

theorem get_ofList {key other : String} (values : List Text) (apart : other.toList ≠ key.toList) :
    Yaml.get key.toList (.map (ofList other values)) = none := by
  rw [ofList]
  split
  · rfl
  · rw [Yaml.get_cons, if_neg apart, Yaml.get_nil]

theorem nameserversOf_nicEntries (network : VirtCiNetwork) :
    nameserversOf (.map (nicEntries network)) = some (network.dns, network.search) := by
  obtain ⟨mac, ipv4, dns, search⟩ := network
  have passes : Yaml.get "nameservers".toList (.map (nicEntries ⟨mac, ipv4, dns, search⟩)) =
      Yaml.get "nameservers".toList (.map (ofNameservers dns search)) := by
    rcases ipv4 with - | ⟨address, - | gateway⟩ <;> rfl
  have none_ : nameserversOf (.map (nicEntries ⟨mac, ipv4, [], []⟩)) = some ([], []) := by
    rcases ipv4 with - | ⟨address, - | gateway⟩ <;> rfl
  by_cases empty : dns.isEmpty && search.isEmpty
  · obtain ⟨rfl, rfl⟩ : dns = [] ∧ search = [] := by simpa using empty
    exact none_
  · have found : Yaml.get "nameservers".toList (.map (ofNameservers dns search)) =
        some (.map (ofList "addresses" dns ++ ofList "search" search)) := by
      rw [ofNameservers, if_neg empty, Yaml.get_cons, if_pos rfl]
    have isOnly : Yaml.only ["addresses", "search"]
        (.map (ofList "addresses" dns ++ ofList "search" search)) = true := by
      cases dns <;> cases search <;> rfl
    have addresses := listOf_ofList dns (ofList "search" search)
      (get_ofList search (show "search".toList ≠ "addresses".toList by decide))
    have domains : listOf "search" (.map (ofList "addresses" dns ++ ofList "search" search)) =
        some search := by
      have whole := @listOf_ofList "search" search [] rfl
      rw [List.append_nil] at whole
      cases dns with
      | nil => exact whole
      | cons => exact whole
    rw [nameserversOf, passes, found]
    simp only [isOnly, if_true, addresses, domains, Option.bind_some, Option.map_some]

/-- A NIC is read back. -/
theorem nicOf_nicEntries {network : VirtCiNetwork}
    (lowercase : asciiLowercase network.mac = network.mac) :
    nicOf (.map (nicEntries network)) = some network := by
  have isOnly : Yaml.only ["match", "dhcp4", "addresses", "routes", "nameservers"]
      (.map (nicEntries network)) = true := by
    obtain ⟨mac, ipv4, dns, search⟩ := network
    rcases ipv4 with - | ⟨address, - | gateway⟩ <;> cases dns <;> cases search <;> rfl
  have isMatch : Yaml.get "match".toList (.map (nicEntries network)) =
      some (.map [("macaddress".toList, .str (asciiLowercase network.mac))]) := rfl
  have hasMac : Yaml.only ["macaddress"]
      (.map [("macaddress".toList, .str (asciiLowercase network.mac))]) = true := rfl
  have isMac : (Yaml.get "macaddress".toList
      (.map [("macaddress".toList, .str (asciiLowercase network.mac))])).bind Yaml.asStr =
        some (asciiLowercase network.mac) := rfl
  rw [nicOf, if_pos isOnly, isMatch, Option.bind_some, if_pos hasMac, isMac, Option.bind_some,
    ipv4Of_nicEntries, Option.bind_some, nameserversOf_nicEntries, lowercase]
  rfl

theorem readExtra_nics {read : VirtSeedRead} (nics : List (VirtCiNetwork × Nat))
    (lowercase : ∀ nic ∈ nics, asciiLowercase nic.1.mac = nic.1.mac) :
    (nicsEntries nics).foldl VirtSeedRead.readExtra read =
      { read with
        cloudInit := { read.cloudInit with
          extraNetworks := read.cloudInit.extraNetworks ++ nics.map Prod.fst } } := by
  induction nics generalizing read with
  | nil => simp [nicsEntries]
  | cons nic nics inductionHypothesis =>
      obtain ⟨here, later⟩ := List.forall_mem_cons.mp lowercase
      have one : read.readExtra ("nic".toList ++ Text.decimal nic.2, .map (nicEntries nic.1)) =
          { read with
            cloudInit := { read.cloudInit with
              extraNetworks := read.cloudInit.extraNetworks ++ [nic.1] } } := by
        simp only [VirtSeedRead.readExtra, nicOf_nicEntries here]
      rw [nicsEntries, List.map_cons, List.foldl_cons, one]
      rw [nicsEntries] at inductionHypothesis
      rw [inductionHypothesis later]
      simp

theorem readNics_eq {read : VirtSeedRead} (nic : VirtCiNetwork × Nat)
    (nics : List (VirtCiNetwork × Nat)) (here : asciiLowercase nic.1.mac = nic.1.mac)
    (later : ∀ other ∈ nics, asciiLowercase other.1.mac = other.1.mac) :
    read.readNics (nicsEntries (nic :: nics)) =
      { read with
        cloudInit := { read.cloudInit with
          network := some nic.1
          extraNetworks := read.cloudInit.extraNetworks ++ nics.map Prod.fst } } := by
  rw [nicsEntries, List.map_cons, VirtSeedRead.readNics, nicOf_nicEntries here]
  exact readExtra_nics nics later

theorem readNetworkConfig_eq {read : VirtSeedRead} (seedable : Seedable ci)
    (noNetwork : read.cloudInit.network = none) (noOthers : read.cloudInit.extraNetworks = []) :
    read.readNetworkConfig ci.networkConfig =
      { read with
        cloudInit := { read.cloudInit with
          network := ci.network
          extraNetworks := ci.extraNetworks } } := by
  cases first : ci.network with
  | none =>
      have nothing : ci.networkConfig = none := by
        rw [networkConfig, first]
        rfl
      rw [nothing, seedable.ordered first]
      change read = _
      rw [← noNetwork, ← noOthers]
  | some nic =>
      obtain ⟨text, isText⟩ : ∃ text, ci.networkConfig = some text := by
        rw [networkConfig, first]
        exact ⟨_, rfl⟩
      have nics : ci.networks = nic :: ci.extraNetworks := by
        rw [networks, first]
        rfl
      have lowercase := seedable.lowercase
      rw [nics] at lowercase
      obtain ⟨here, later⟩ := List.forall_mem_cons.mp lowercase
      have others : ∀ other ∈ ci.extraNetworks.zipIdx 1,
          asciiLowercase other.1.mac = other.1.mac := fun other isOther =>
        later other.1 (List.fst_mem_of_mem_zipIdx isOther)
      have document := yaml_networkConfig isText
      rw [nics, List.zipIdx_cons] at document
      have isVersion : Yaml.is ((yaml text).get "version".toList) "2".toList = true := by
        rw [document]
        rfl
      have twoKeys : decide ((yaml text).keys.length ≠ 2) = false := by
        rw [document]
        rfl
      have ethernets : (yaml text).get "ethernets".toList =
          some (.map (nicsEntries ((nic, 0) :: ci.extraNetworks.zipIdx 1))) := by
        rw [document]
        rfl
      rw [isText]
      simp only [VirtSeedRead.readNetworkConfig, isVersion, twoKeys, ethernets, Bool.not_true,
        Bool.or_false]
      rw [readNics_eq (nic, 0) _ here others, noOthers, List.nil_append, List.zipIdx_map_fst]

/-! ### The account -/

/-- Whether a value holds a text under a key. -/
theorem Yaml.is_str (text : Text) : Yaml.is (some (.str text)) text = true := by
  simp [Yaml.is, Yaml.asStr]

theorem readAccount_eq (seedable : Seedable ci) {read : VirtSeedRead}
    (noKeys : read.cloudInit.sshKeys = []) :
    read.readAccount (.map (accountEntries ci), false) =
      { read with
        cloudInit := { read.cloudInit with
          user := ci.user
          passwordHash := ci.passwordHash
          sshKeys := ci.sshKeys } } := by
  have hashes := (of_check seedable.checked).1
  have user : Yaml.textAt "name" (.map (accountEntries ci)) = ci.user := rfl
  have isElevated : Yaml.is (Yaml.get "sudo".toList (.map (accountEntries ci)))
      "ALL=(ALL) NOPASSWD:ALL".toList = true := rfl
  have noShell : Yaml.get "shell".toList (.map (accountEntries ci)) = none := by
    rw [accountEntries, ofKeys]
    cases ci.passwordHash <;> cases ci.sshKeys <;> rfl
  have onlyKeys : Yaml.hasOnly ["name", "sudo", "shell", "lock_passwd", "hashed_passwd",
      "ssh_authorized_keys"] (.map (accountEntries ci)) = true := by
    rw [accountEntries, ofKeys]
    cases ci.passwordHash <;> cases ci.sshKeys <;> rfl
  have hash : Yaml.get "hashed_passwd".toList (.map (accountEntries ci)) =
      ci.passwordHash.map .str := by
    rw [accountEntries, ofKeys]
    cases ci.passwordHash <;> cases ci.sshKeys <;> rfl
  have isHash : ((ci.passwordHash.map Yaml.str).bind Yaml.asStr).filter isCryptHash =
      ci.passwordHash := by
    cases found : ci.passwordHash with
    | none => rfl
    | some hash =>
        change Option.filter isCryptHash (some hash) = some hash
        rw [Option.filter_some, if_pos (hashes hash found)]
  have keys : ((Yaml.get "ssh_authorized_keys".toList (.map (accountEntries ci))).map
      Yaml.strs).any Option.isNone = false ∧
      (((Yaml.get "ssh_authorized_keys".toList (.map (accountEntries ci))).map
        Yaml.strs).getD none).getD [] = ci.sshKeys := by
    have found : Yaml.get "ssh_authorized_keys".toList (.map (accountEntries ci)) =
        if ci.sshKeys.isEmpty then none else some (.seq (ci.sshKeys.map .str)) := by
      rw [accountEntries, ofKeys]
      cases ci.passwordHash <;> cases ci.sshKeys <;> rfl
    rw [found]
    split
    next empty => exact ⟨rfl, (List.isEmpty_iff.mp empty).symm⟩
    next => rw [Option.map_some, Yaml.strs_seq]; exact ⟨rfl, rfl⟩
  have isGone : ((ci.passwordHash.map Yaml.str).isSome && ci.passwordHash.isNone) = false := by
    cases ci.passwordHash <;> rfl
  simp only [VirtSeedRead.readAccount, user, isElevated, noShell, onlyKeys, hash, isHash, isGone,
    noKeys, keys.1, keys.2, Bool.not_true, Bool.or_false, Bool.not_false, Bool.true_and,
    Bool.false_and, Option.isSome_none]

/-- The hash set again for the account itself. -/
theorem isOurs_account {read : VirtCloudInit} {hash : Text}
    (isHash : read.passwordHash = some hash) :
    VirtSeedRead.isOurs read (.map [("expire".toList, .str "true".toList), ("users".toList,
      .seq [.map [("name".toList, .str read.user), ("password".toList, .str hash),
        ("type".toList, .str "hash".toList)]])]) = true := by
  have name : Yaml.is (Yaml.get "name".toList (.map [("name".toList, .str read.user),
      ("password".toList, .str hash), ("type".toList, .str "hash".toList)])) read.user = true :=
    Yaml.is_str _
  have password : Yaml.is (Yaml.get "password".toList (.map [("name".toList, .str read.user),
      ("password".toList, .str hash), ("type".toList, .str "hash".toList)])) hash = true :=
    Yaml.is_str _
  change (Yaml.is _ read.user && read.passwordHash.any _ && _ && _) = true
  rw [isHash, Option.any_some, name, password]
  rfl

theorem readUserData_eq (seedable : Seedable ci) :
    VirtSeedRead.readUserData { foreign := false } (some ci.userData) =
      { cloudInit :=
          { user := ci.user
            passwordHash := ci.passwordHash
            sshKeys := ci.sshKeys
            hostname := ci.hostname
            passwordExpire := ci.passwordExpire }
        foreign := false } := by
  have starts : (Text.stripPrefix "#cloud-config" ci.userData).isNone = false := by
    unfold userData
    simp only [List.append_assoc]
    exact congrArg Option.isNone (Text.stripPrefix_append "#cloud-config" _)
  have document := yaml_userData seedable.trimmed
  have hostname : Yaml.textAt "hostname" (.map (userEntries ci)) = ci.hostname := rfl
  have manages : Yaml.is (Yaml.get "manage_etc_hosts".toList (.map (userEntries ci)))
      "true".toList = true := rfl
  have onlyKeys : Yaml.hasOnly ["hostname", "manage_etc_hosts", "user", "users", "ssh_pwauth",
      "chpasswd"] (.map (userEntries ci)) = true := by
    rw [userEntries]
    cases ci.passwordHash <;> cases ci.passwordExpire <;> rfl
  have account : VirtSeedRead.accountOf (.map (userEntries ci)) =
      some (.map (accountEntries ci), false) := by
    rw [userEntries]
    cases ci.passwordHash <;> cases ci.passwordExpire <;> rfl
  have locked : Yaml.is (Yaml.get "lock_passwd".toList (.map (accountEntries ci)))
      (if ci.passwordHash.isSome then "false".toList else "true".toList) = true := by
    rw [accountEntries]
    cases ci.passwordHash <;> rfl
  have pwauth : Yaml.is (Yaml.get "ssh_pwauth".toList (.map (userEntries ci)))
      (if ci.passwordHash.isSome then "true".toList else "false".toList) = true :=
    Yaml.is_str _
  simp only [VirtSeedRead.readUserData, starts, document, account, hostname, manages, onlyKeys,
    readAccount_eq seedable, locked, pwauth, Yaml.isNull, Bool.false_eq_true, if_false,
    Option.any_some, Bool.not_true, Bool.or_false]
  have chpasswd : Yaml.get "chpasswd".toList (.map (userEntries ci)) =
      Yaml.get "chpasswd".toList (.map (ofExpiry ci.user ci.passwordHash ci.passwordExpire)) := rfl
  rw [chpasswd]
  cases expire : ci.passwordExpire with
  | false =>
      have nothing (hash : Option Text) : ofExpiry ci.user hash false = [] := by
        cases hash <;> rfl
      rw [nothing, Yaml.get_nil]
  | true =>
      obtain ⟨hash, isHash⟩ := Option.isSome_iff_exists.mp (seedable.expires expire)
      rw [isHash, ofExpiry, Yaml.get_cons, if_pos rfl]
      have expires (users : Yaml) : Yaml.is (Yaml.get "expire".toList
          (.map [("expire".toList, .str "true".toList), ("users".toList, users)]))
          "true".toList = true := rfl
      have onlyThese (users : Yaml) : Yaml.hasOnly ["expire", "users"]
          (.map [("expire".toList, .str "true".toList), ("users".toList, users)]) = true := rfl
      have ours := @isOurs_account
        { user := ci.user
          passwordHash := some hash
          sshKeys := ci.sshKeys
          hostname := ci.hostname } hash rfl
      simp only [expires, onlyThese, ours]
      rfl

theorem readMetaData_eq {read : VirtSeedRead} (isHost : read.cloudInit.hostname = ci.hostname)
    (named : ci.hostname ≠ []) :
    read.readMetaData (some ci.metaData) =
      { read with cloudInit := { read.cloudInit with instanceId := ci.instanceId } } := by
  have instanceId : Yaml.textAt "instance-id" (yaml ci.metaData) = ci.instanceId := by
    rw [yaml_metaData]
    rfl
  have isMap : (yaml ci.metaData).isNull = false := by rw [yaml_metaData]; rfl
  have onlyKeys : (yaml ci.metaData).hasOnly ["instance-id", "local-hostname"] = true := by
    rw [yaml_metaData]
    rfl
  have hostname : (yaml ci.metaData).get "local-hostname".toList = some (.str ci.hostname) := by
    rw [yaml_metaData]
    rfl
  have isNamed : ci.hostname.isEmpty = false := by simpa using named
  simp only [VirtSeedRead.readMetaData, instanceId, isMap, onlyKeys, hostname, isHost, isNamed,
    Bool.false_eq_true, if_false, Yaml.is_str, Bool.not_true, Bool.or_false]

/-- A seed is read back as what it was written from, and as no foreign one. -/
theorem parseSeed_files (ci : VirtCloudInit) (seedable : Seedable ci) :
    parseSeed ci.files = { cloudInit := ci, foreign := false } := by
  have hashes := of_check seedable.checked
  have names : (ci.files.map Prod.fst).any (fun name =>
      decide (name ∉ ["user-data", "meta-data", "network-config"].map String.toList)) = false ∧
      (ci.files.map Prod.fst).Nodup := by
    rw [files]
    cases ci.networkConfig with
    | none =>
        exact ⟨rfl, (show ["user-data".toList, "meta-data".toList].Nodup by decide)⟩
    | some config =>
        exact ⟨rfl, (show ["user-data".toList, "meta-data".toList,
          "network-config".toList].Nodup by decide)⟩
  have userFile : (ci.files.find? fun entry => entry.1 = "user-data".toList) =
      some ("user-data".toList, Utf8.encode ci.userData) := rfl
  have metaFile : (ci.files.find? fun entry => entry.1 = "meta-data".toList) =
      some ("meta-data".toList, Utf8.encode ci.metaData) := rfl
  have networkFile : (ci.files.find? fun entry => entry.1 = "network-config".toList).map
      (fun entry => Utf8.decode entry.2) = ci.networkConfig := by
    rw [files]
    cases ci.networkConfig with
    | none => rfl
    | some config => exact congrArg some (Utf8.decode_encode config)
  simp only [parseSeed, names.1, names.2, decide_true, Bool.not_true, Bool.or_false, userFile,
    metaFile, networkFile, Option.map_some, Utf8.decode_encode, readUserData_eq seedable]
  have hostname : ∀ read : VirtSeedRead, read.cloudInit.hostname = ci.hostname →
      read.readMetaData (some ci.metaData) =
        { read with cloudInit := { read.cloudInit with instanceId := ci.instanceId } } :=
    fun _ isHost => readMetaData_eq isHost hashes.2
  rw [hostname _ rfl, readNetworkConfig_eq seedable rfl rfl]

/-- A guest with one NIC, and a key whose comment looks like YAML. -/
def oneNic : VirtCloudInit where
  user := "op".toList
  sshKeys := ["ssh-ed25519 AAAA \"a, b\": [c] # \\d".toList]
  hostname := "web".toList
  instanceId := "iid-1".toList
  network := some ⟨"52:54:00:aa:bb:cc".toList, none, [], ["lan".toList]⟩

theorem parseSeed_oneNic : parseSeed oneNic.files = { cloudInit := oneNic, foreign := false } := by
  refine parseSeed_files oneNic ⟨?_, ?_, ?_, nofun, nofun⟩
  · rfl
  · decide
  · decide

end ServerBox.Virt
