import ServerBox.Std.IpAddress
import ServerBox.Std.Utf8
import ServerBox.Virt.Networks
import ServerBox.Virt.SeedYaml

/-!
# cloud-init for a libvirt domain

`VirtCloudInit` of `src/crates/sbm_virt/src/libvirt/cloud_init.rs`: what a domain is told at its
first boot, the check before it, the three files of the seed it is written into, and `parse_seed`,
which reads them back.
-/

namespace ServerBox.Virt

open ServerBox.Std

/-- Static IPv4 of a NIC. -/
structure VirtCiIpv4 where
  address : Text
  gateway : Option Text
deriving DecidableEq, Repr

/-- One NIC's configuration, matched by its MAC; without `ipv4` it is DHCP. -/
structure VirtCiNetwork where
  mac : Text
  ipv4 : Option VirtCiIpv4
  dns : List Text
  search : List Text
deriving DecidableEq, Repr

/-- What a new domain's cloud-init is told. -/
structure VirtCloudInit where
  user : Text := []
  passwordHash : Option Text := none
  sshKeys : List Text := []
  hostname : Text := []
  instanceId : Text := []
  network : Option VirtCiNetwork := none
  extraNetworks : List VirtCiNetwork := []
  passwordExpire : Bool := false
deriving DecidableEq, Repr

/-! ### The check -/

/-- `str::len`, in bytes. -/
def byteLength (text : Text) : Nat := (text.map Char.utf8Size).sum

/-- `is_dns_name`. -/
def isDnsName (name : Text) : Bool :=
  !name.isEmpty && decide (byteLength name ≤ 253) && (name.splitOn '.').all fun label =>
    !label.isEmpty && decide (byteLength label ≤ 63) &&
      label.all (fun char => char.isAlphanum || char = '-') &&
      decide (label.head? ≠ some '-') && decide (label.getLast? ≠ some '-')

/-- `is_user_name`. -/
def isUserName (name : Text) : Bool :=
  decide (byteLength name ≤ 32) && name.head?.any (fun char => char.isLower || char = '_') &&
    name.all fun char => char.isLower || char.isDigit || char = '_' || char = '-'

/-- `is_ipv4`. -/
def isIpv4 (text : Text) : Bool :=
  decide (byteLength text ≤ 15) && match IpAddr.readIpv4 text with
    | some (_, []) => true
    | _ => false

/-- `is_cidr4`. -/
def isCidr4 (text : Text) : Bool :=
  (Text.splitOnce '/' text).any fun (address, length) =>
    isIpv4 address && (Text.parseUnsigned 255 length).any fun length =>
      decide (1 ≤ length) && decide (length ≤ 32)

def itoa64 : Text := "./0123456789ABCDEFGHIJKLMNOPQRSTUVWXYZabcdefghijklmnopqrstuvwxyz".toList

/-- `is_crypt_hash`. -/
def isCryptHash (text : Text) : Bool :=
  ((Text.stripPrefix "$6$" text).bind (Text.splitOnce '$')).any fun (salt, hash) =>
    let b64 (part : Text) : Bool := part.all fun char => decide (char ∈ itoa64)
    decide (1 ≤ byteLength salt) && decide (byteLength salt ≤ 16) && b64 salt &&
      decide (byteLength hash = 86) && b64 hash

namespace VirtCloudInit

/-- `networks`: every NIC, the edited one first. -/
def networks (ci : VirtCloudInit) : List VirtCiNetwork := ci.network.toList ++ ci.extraNetworks

def bad (what : String) : Except Text Unit := .error ("invalid cloud-init: ".toList ++ what.toList)

/-- The NICs as `check` takes them, one after another, with the MACs before them. -/
def checkNetworks (macs : List Text) : List VirtCiNetwork → Except Text Unit
  | [] => .ok ()
  | network :: rest =>
      if !isMac network.mac || decide (asciiLowercase network.mac ∈ macs) then bad "mac"
      else if network.ipv4.any fun ip =>
          !isCidr4 ip.address || ip.gateway.any fun gateway => !isIpv4 gateway then bad "ipv4"
      else if network.dns.any fun address => (IpAddr.parse address).isNone then bad "dns"
      else if network.search.any fun domain => !isDnsName domain then bad "search domain"
      else checkNetworks (asciiLowercase network.mac :: macs) rest

/-- `check`: refuses a value that no seed should carry. -/
def check (ci : VirtCloudInit) : Except Text Unit :=
  if !isUserName ci.user || ci.user.isEmpty then bad "user"
  else if ci.passwordHash.any fun hash => !isCryptHash hash then bad "password hash"
  else if ci.sshKeys.any fun key =>
      (Text.trim key).isEmpty || decide (16 * 2 ^ 10 < byteLength key) || key.any isControl then
    bad "ssh key"
  else if !isDnsName ci.hostname then bad "hostname"
  else if ci.instanceId.isEmpty || decide (128 < byteLength ci.instanceId) ||
      !ci.instanceId.all fun char => char.isAlphanum || decide (char ∈ "._-".toList) then
    bad "instance id"
  else checkNetworks [] ci.networks

/-! ### The files of a seed -/

/-- `json`. -/
def json (text : Text) : Text := JsonText.string text

/-- A line of a file: `format!("{start}{}\n", j(value))`. -/
def jsonLine (start : String) (value : Text) : Text := start.toList ++ json value ++ ['\n']

/-- `user_data`: the account, its password hash and keys, the hostname. -/
def userData (ci : VirtCloudInit) : Text :=
  let keys := (ci.sshKeys.map Text.trim).filter (!·.isEmpty)
  "#cloud-config\n".toList ++
    jsonLine "hostname: " ci.hostname ++
    "manage_etc_hosts: true\n".toList ++
    "user:\n".toList ++
    jsonLine "  name: " ci.user ++
    "  sudo: \"ALL=(ALL) NOPASSWD:ALL\"\n".toList ++
    (match ci.passwordHash with
      | some hash => "  lock_passwd: false\n".toList ++ jsonLine "  hashed_passwd: " hash
      | none => "  lock_passwd: true\n".toList) ++
    (if keys.isEmpty then []
      else "  ssh_authorized_keys:\n".toList ++ keys.flatMap (jsonLine "    - ")) ++
    (if ci.passwordHash.isSome then "ssh_pwauth: true\n".toList
      else "ssh_pwauth: false\n".toList) ++
    (match ci.passwordHash, ci.passwordExpire with
      | some hash, true =>
          "chpasswd:\n  expire: true\n  users:\n".toList ++
            jsonLine "    - name: " ci.user ++
            jsonLine "      password: " hash ++
            "      type: hash\n".toList
      | _, _ => [])

/-- `meta_data`. -/
def metaData (ci : VirtCloudInit) : Text :=
  jsonLine "instance-id: " ci.instanceId ++ jsonLine "local-hostname: " ci.hostname

/-- A flow sequence of strings. -/
def jsonList (start : String) (values : List Text) : Text :=
  start.toList ++ '[' :: (", ".toList.intercalate (values.map json) ++ "]\n".toList)

/-- A NIC in `network_config`. -/
def networkEntry (index : Nat) (network : VirtCiNetwork) : Text :=
  "  nic".toList ++ Text.decimal index ++ ":\n".toList ++
    "    match:\n".toList ++ jsonLine "      macaddress: " (asciiLowercase network.mac) ++
    (match network.ipv4 with
      | none => "    dhcp4: true\n".toList
      | some ip =>
          "    dhcp4: false\n".toList ++
            jsonList "    addresses: " [ip.address] ++
            (match ip.gateway with
              | none => []
              | some gateway =>
                  "    routes:\n      - to: \"0.0.0.0/0\"\n".toList ++
                    jsonLine "        via: " gateway)) ++
    (if network.dns.isEmpty && network.search.isEmpty then []
      else
        "    nameservers:\n".toList ++
          (if network.dns.isEmpty then [] else jsonList "      addresses: " network.dns) ++
          (if network.search.isEmpty then [] else jsonList "      search: " network.search))

/-- `network_config`: none without a NIC. -/
def networkConfig (ci : VirtCloudInit) : Option Text :=
  ci.network.map fun _ =>
    "version: 2\nethernets:\n".toList ++
      (ci.networks.zipIdx.flatMap fun (network, index) => networkEntry index network)

/-- The files that a seed is made of, as bytes under their names. -/
def files (ci : VirtCloudInit) : List (Text × List UInt8) :=
  [("user-data".toList, Utf8.encode ci.userData), ("meta-data".toList, Utf8.encode ci.metaData)] ++
    (ci.networkConfig.map fun config => ("network-config".toList, Utf8.encode config)).toList

end VirtCloudInit

/-! ### A seed read back -/

/-- A seed as read back: whether it holds settings that are not written so. -/
structure VirtSeedRead where
  cloudInit : VirtCloudInit := {}
  foreign : Bool
  revision : Text := []
deriving DecidableEq, Repr

namespace Yaml

/-- Whether a value is a text. -/
def is (value : Option Yaml) (want : Text) : Bool := value.bind asStr = some want

def isMap : Yaml → Bool
  | map _ => true
  | _ => false

/-- The text under a key, or none there. -/
def textAt (key : String) (value : Yaml) : Text := ((value.get key.toList).bind asStr).getD []

/-- Whether every key of a value is one of these. -/
def hasOnly (keys : List String) (value : Yaml) : Bool :=
  value.keys.all fun key => decide (key ∈ keys.map String.toList)

/-- Whether a value is a mapping with none but these keys. -/
def only (keys : List String) (value : Yaml) : Bool := value.isMap && value.hasOnly keys

end Yaml

/-- The gateway of the one route there may be, to everywhere. -/
def gatewayOf : Option Yaml → Option (Option Text)
  | none => some none
  | some (.seq [route]) =>
      let target := (route.get "to".toList).bind Yaml.asStr
      if route.only ["to", "via"] &&
          (target = some "0.0.0.0/0".toList || target = some "default".toList) then
        ((route.get "via".toList).bind Yaml.asStr).map some
      else none
  | some _ => none

/-- The addressing of a NIC: by DHCP and nothing else, or one address. -/
def ipv4Of (nic : Yaml) : Option (Option VirtCiIpv4) :=
  ((nic.get "dhcp4".toList).bind Yaml.asStr).bind fun dhcp4 =>
    match nic.get "addresses".toList, nic.get "routes".toList with
    | none, none => if dhcp4 = "true".toList then some none else none
    | some addresses, routes =>
        if dhcp4 = "false".toList then
          match addresses.strs with
          | some [address] => (gatewayOf routes).map fun gateway => some ⟨address, gateway⟩
          | _ => none
        else none
    | none, some _ => none

/-- The strings under a key, none of them where there is no such key. -/
def listOf (key : String) (value : Yaml) : Option (List Text) :=
  match value.get key.toList with
  | none => some []
  | some values => values.strs

/-- The name servers and search domains of a NIC. -/
def nameserversOf (nic : Yaml) : Option (List Text × List Text) :=
  match nic.get "nameservers".toList with
  | none => some ([], [])
  | some nameservers =>
      if nameservers.only ["addresses", "search"] then
        (listOf "addresses" nameservers).bind fun dns =>
          (listOf "search" nameservers).map fun search => (dns, search)
      else none

/-- `nic_of`: a NIC as the seed writes it; none for anything else. -/
def nicOf (nic : Yaml) : Option VirtCiNetwork :=
  if nic.only ["match", "dhcp4", "addresses", "routes", "nameservers"] then
    (nic.get "match".toList).bind fun matched =>
      if matched.only ["macaddress"] then
        ((matched.get "macaddress".toList).bind Yaml.asStr).bind fun mac =>
          (ipv4Of nic).bind fun ipv4 =>
            (nameserversOf nic).map fun (dns, search) => ⟨mac, ipv4, dns, search⟩
      else none
  else none

namespace VirtSeedRead

/-- The account of `user-data`, and whether it is written as the first release did. -/
def accountOf (document : Yaml) : Option (Yaml × Bool) :=
  match document.get "user".toList, document.get "users".toList with
  | some user, none => if user.isMap then some (user, false) else none
  | none, some (.seq [user]) => if user.isMap then some (user, true) else none
  | _, _ => none

/-- Whether `chpasswd` sets this account's own hash again. -/
def isOurs (ci : VirtCloudInit) (chpasswd : Yaml) : Bool :=
  match chpasswd.get "users".toList with
  | some (.seq [user]) =>
      Yaml.is (user.get "name".toList) ci.user &&
        ci.passwordHash.any (fun hash => Yaml.is (user.get "password".toList) hash) &&
        Yaml.is (user.get "type".toList) "hash".toList &&
        user.hasOnly ["name", "password", "type"]
  | _ => false

/-- The account as it is read: its name, its hash and its keys. -/
def readAccount (read : VirtSeedRead) (account : Yaml × Bool) : VirtSeedRead :=
  let (user, legacy) := account
  let hash := ((user.get "hashed_passwd".toList).bind Yaml.asStr).filter isCryptHash
  let keys := (user.get "ssh_authorized_keys".toList).map Yaml.strs
  { read with
    cloudInit := { read.cloudInit with
      user := user.textAt "name"
      passwordHash := hash
      sshKeys := (keys.getD none).getD read.cloudInit.sshKeys }
    foreign := read.foreign ||
      (!legacy && (user.get "shell".toList).isSome) ||
      !user.hasOnly ["name", "sudo", "shell", "lock_passwd", "hashed_passwd",
        "ssh_authorized_keys"] ||
      !Yaml.is (user.get "sudo".toList) "ALL=(ALL) NOPASSWD:ALL".toList ||
      (legacy && (user.get "shell".toList).any fun shell =>
        shell.asStr ≠ some "/bin/bash".toList) ||
      ((user.get "hashed_passwd".toList).isSome && hash.isNone) ||
      keys.any Option.isNone }

/-- `user-data` as it is read. -/
def readUserData (read : VirtSeedRead) : Option Text → VirtSeedRead
  | none => { read with foreign := true }
  | some text =>
      if (Text.stripPrefix "#cloud-config" text).isNone then { read with foreign := true }
      else
        let document := yaml text
        let account := accountOf document
        let read : VirtSeedRead :=
          { read with
            cloudInit := { read.cloudInit with hostname := document.textAt "hostname" }
            foreign := read.foreign || document.isNull ||
              !document.hasOnly ["hostname", "manage_etc_hosts", "user", "users", "ssh_pwauth",
                "chpasswd"] ||
              !Yaml.is (document.get "manage_etc_hosts".toList) "true".toList }
        let read := match account with
          | some account => read.readAccount account
          | none => { read with foreign := true }
        let hashed := read.cloudInit.passwordHash.isSome
        let read : VirtSeedRead :=
          { read with
            foreign := read.foreign ||
              !account.any (fun (user, _) => Yaml.is (user.get "lock_passwd".toList)
                (if hashed then "false".toList else "true".toList)) ||
              !Yaml.is (document.get "ssh_pwauth".toList)
                (if hashed then "true".toList else "false".toList) }
        match document.get "chpasswd".toList with
        | none => read
        | some chpasswd =>
            let ours := isOurs read.cloudInit chpasswd
            let expires := Yaml.is (chpasswd.get "expire".toList) "true".toList
            { read with
              cloudInit := { read.cloudInit with passwordExpire := ours && expires }
              foreign := read.foreign || !ours || !expires ||
                !chpasswd.hasOnly ["expire", "users"] }

/-- `meta-data` as it is read. -/
def readMetaData (read : VirtSeedRead) : Option Text → VirtSeedRead
  | none => { read with foreign := true }
  | some text =>
      let document := yaml text
      let hostname :=
        if read.cloudInit.hostname.isEmpty then document.textAt "local-hostname"
        else read.cloudInit.hostname
      { read with
        cloudInit := { read.cloudInit with
          instanceId := document.textAt "instance-id"
          hostname }
        foreign := read.foreign || document.isNull ||
          !document.hasOnly ["instance-id", "local-hostname"] ||
          !Yaml.is (document.get "local-hostname".toList) hostname }

/-- A NIC after the first. -/
def readExtra (read : VirtSeedRead) (nic : Text × Yaml) : VirtSeedRead :=
  match nicOf nic.2 with
  | some network =>
      { read with
        cloudInit := { read.cloudInit with
          extraNetworks := read.cloudInit.extraNetworks ++ [network] } }
  | none => { read with foreign := true }

/-- The NICs: the first is the one that is edited. -/
def readNics (read : VirtSeedRead) : List (Text × Yaml) → VirtSeedRead
  | [] => { read with foreign := true }
  | first :: others =>
      let read : VirtSeedRead := match nicOf first.2 with
        | some network =>
            { read with cloudInit := { read.cloudInit with network := some network } }
        | none => { read with foreign := true }
      others.foldl readExtra read

/-- `network-config` as it is read, where there is one. -/
def readNetworkConfig (read : VirtSeedRead) : Option Text → VirtSeedRead
  | none => read
  | some text =>
      let document := yaml text
      let nics := match document.get "ethernets".toList with
        | some (.map nics) => nics
        | _ => []
      let read := { read with
        foreign := read.foreign || !Yaml.is (document.get "version".toList) "2".toList ||
          decide (document.keys.length ≠ 2) }
      read.readNics nics

end VirtSeedRead

/-- `parse_seed`. -/
def parseSeed (files : List (Text × List UInt8)) : VirtSeedRead :=
  let file (name : String) : Option Text :=
    (files.find? fun entry => entry.1 = name.toList).map fun entry => Utf8.decode entry.2
  let names := files.map Prod.fst
  let known := ["user-data", "meta-data", "network-config"].map String.toList
  let read : VirtSeedRead :=
    { foreign := names.any (fun name => decide (name ∉ known)) || !decide names.Nodup }
  ((read.readUserData (file "user-data")).readMetaData (file "meta-data")).readNetworkConfig
    (file "network-config")

end ServerBox.Virt
