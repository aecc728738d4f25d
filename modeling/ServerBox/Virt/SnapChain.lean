import ServerBox.Script.Segments
import ServerBox.Std.JsonText

/-!
# The disk chains of a domain

`src/crates/sbm_virt/src/libvirt/snapshot.rs`, from what the check script prints to the files that
deleting a snapshot would leave behind: the sections with the exit status of their call, the chain
that QEMU answers for a path, the disks of the definition with the answer that is theirs, and
`snap_delete_leftovers`. A document is read by a parameter, `parseXml`. What an error says is not
part of this: a function that fails gives nothing.
-/

namespace ServerBox.Virt.Snapshot

open ServerBox.Std

/-! ### Sections -/

/-- `rsplit_once`. -/
def rsplitOnce (separator : Char) (text : Text) : Option (Text × Text) :=
  (Text.splitOnce separator text.reverse).map fun (after, before) =>
    (before.reverse, after.reverse)

structure Section where
  body : Text
  /-- Nothing where the output was cut off. -/
  rc : Option Int
deriving DecidableEq, Repr

def rcPrefix : String := "SbVirtRc="

/-- `i32::from_str`. -/
def parseI32 (text : Text) : Option Int :=
  match text with
  | '-' :: '+' :: _ => none
  | '-' :: digits => (Text.parseUnsigned (2 ^ 31) digits).map fun value : Nat => -(value : Int)
  | digits => (Text.parseUnsigned (2 ^ 31 - 1) digits).map fun value : Nat => (value : Int)

def Section.parse (raw : Text) : Section :=
  let trimmed := Text.trimEnd raw
  let (head, last) := (rsplitOnce '\n' trimmed).getD ([], trimmed)
  match (Text.stripPrefix rcPrefix (Text.trim last)).bind fun code => parseI32 (Text.trim code) with
  | some rc => ⟨head, some rc⟩
  | none => ⟨raw, none⟩

/-- The body, where the call succeeded. -/
def Section.ok (found : Section) : Option Text :=
  if found.rc = some 0 then some found.body else none

def keyMissing : Text := "virt.missing".toList

def keyXml : Text := "virt.xml".toList

def keySnapChain : Text := "virt.snap.chain".toList

def keyDelSnap : Text := "virt.snap.del.snap".toList

def sections (raw : Text) : Option (List (Text × Section)) :=
  let segments := Script.parseScriptSegments raw
  if segments.any fun (key, _) => key = keyMissing then none
  else some (segments.map fun (key, text) => (key, .parse text))

def take (found : List (Text × Section)) (key : Text) : Option Section := found.lookup key

/-! ### Documents -/

inductive Element where
  | mk (name : Text) (attributes : List (Text × Text)) (children : List Element)

namespace Element

def name : Element → Text
  | mk name _ _ => name

def attr (key : Text) : Element → Option Text
  | mk _ attributes _ => attributes.lookup key

def children : Element → List Element
  | mk _ _ children => children

mutual

/-- The element and all below it, in the order of the document. -/
def descendants : Element → List Element
  | mk name attributes children => mk name attributes children :: descendantsOf children

def descendantsOf : List Element → List Element
  | [] => []
  | element :: rest => element.descendants ++ descendantsOf rest

end

def child (element : Element) (name : Text) : Option Element :=
  element.children.find? fun child => child.name = name

end Element

/-- Where a text has another in it, from there on. -/
def findFrom (sought : Text) : Text → Option Text
  | [] => if sought = [] then some [] else none
  | char :: rest =>
      if sought.isPrefixOf (char :: rest) then some (char :: rest) else findFrom sought rest

def parseXmlDoc (parseXml : Text → Option Element) (raw root : Text) : Option Element :=
  (findFrom ('<' :: root) raw).bind fun document => parseXml (Text.trimEnd document)

/-! ### What QEMU answers -/

structure VirtSnapChainFile where
  path : Text
  format : Option Text := none
  backing : Option Text := none
  backingFormat : Option Text := none
  allocation : Option Nat := none
  capacity : Option Nat := none
deriving DecidableEq, Repr

structure QemuImgInfo where
  filename : Option Text
  format : Option Text
  virtualSize : Option Nat
  actualSize : Option Nat
  backingFilename : Option Text
  fullBackingFilename : Option Text
  backingFormat : Option Text
deriving DecidableEq, Repr

/-- An `Option<String>` of an object: an error where the value is another, or there are two. -/
def stringField (members : List (Text × JsonText.Node)) (key : String) : Option (Option Text) :=
  match members.filter fun (name, _) => name = key.toList with
  | [] | [(_, .null)] => some none
  | [(_, .string text)] => some (some text)
  | _ => none

/-- An `Option<u64>` of an object. -/
def numberField (members : List (Text × JsonText.Node)) (key : String) : Option (Option Nat) :=
  match members.filter fun (name, _) => name = key.toList with
  | [] | [(_, .null)] => some none
  | [(_, .number token)] =>
      if token.all Char.isDigit && Text.digitsValue token < 2 ^ 64 then
        some (some (Text.digitsValue token))
      else none
  | _ => none

def QemuImgInfo.fromNode : JsonText.Node → Option QemuImgInfo
  | .object members => do
      let filename ← stringField members "filename"
      let format ← stringField members "format"
      let virtualSize ← numberField members "virtual-size"
      let actualSize ← numberField members "actual-size"
      let backingFilename ← stringField members "backing-filename"
      let fullBackingFilename ← stringField members "full-backing-filename"
      let backingFormat ← stringField members "backing-filename-format"
      some ⟨filename, format, virtualSize, actualSize, backingFilename, fullBackingFilename,
        backingFormat⟩
  | _ => none

/-- `serde_json::from_str::<Vec<QemuImgInfo>>`. -/
def qemuImgInfos (json : Text) : Option (List QemuImgInfo) :=
  match JsonText.fromStr json with
  | some (.array items) => items.mapM QemuImgInfo.fromNode
  | _ => none

/-- The backing file as QEMU opens it. -/
def QemuImgInfo.backing (info : QemuImgInfo) (path : Text) : Option Text :=
  match info.fullBackingFilename with
  | some full => some full
  | none => info.backingFilename.map fun name =>
      match rsplitOnce '/' path with
      | some (folder, _) =>
          if !(['/'].isPrefixOf name) && !(name.contains ':') then folder ++ '/' :: name else name
      | none => name

/-- The layers up to the first without a backing file. -/
def chainOf : List QemuImgInfo → Option (List VirtSnapChainFile)
  | [] => some []
  | info :: infos => do
      let path ← info.filename
      let backing := info.backing path
      let file : VirtSnapChainFile :=
        ⟨path, info.format, backing, info.backingFormat, info.actualSize, info.virtualSize⟩
      if backing.isNone then some [file]
      else
        let below ← chainOf infos
        some (file :: below)

def qemuImgChain (json : Text) : Option (List VirtSnapChainFile) := (qemuImgInfos json).bind chainOf

/-! ### The disks -/

structure VirtSnapChainDisk where
  target : Text
  files : List VirtSnapChainFile
  error : Option Text
deriving DecidableEq, Repr

/-- A chain that QEMU answered, or why it did not. -/
abbrev Answer := Except Text (List VirtSnapChainFile)

/-- A disk of the definition that is not a CD-ROM: its target and its file, or nothing where it has
no target. -/
def definedDisk (disk : Element) : Option (Text × Option Text) :=
  ((disk.child "target".toList).bind (·.attr "dev".toList)).map fun target =>
    (target, (disk.child "source".toList).bind (·.attr "file".toList))

def isCdrom (disk : Element) : Bool := disk.attr "device".toList = some "cdrom".toList

/-- The disks of a document in its order. -/
def diskElements (root : Element) : List Element :=
  root.descendants.filter fun element => element.name = "disk".toList

/-- The disks that the definition has, and whether each of them is named. -/
def defined (root : Element) : List (Text × Option Text) × Bool :=
  let disks := (diskElements root).filter fun disk => !isCdrom disk
  (disks.filterMap definedDisk, disks.all fun disk => (definedDisk disk).isSome)

/-- The path that a section is about, and what was answered; nothing without a path. -/
def answerOf (found : Section) : Option (Text × Answer) :=
  let (path, rest) := (Text.splitOnce '\n' found.body).getD (found.body, [])
  if (Text.trim path).isEmpty then none
  else
    let rest := Text.trim rest
    let refused : Answer :=
      .error (if rest.isEmpty then "qemu-img gave no answer".toList else rest)
    some (Text.trim path, match found.rc, qemuImgChain rest with
      | some 0, some files => if files.isEmpty then refused else .ok files
      | _, _ => refused)

/-- An answer for the path that the definition names, or whose base is that file. -/
def position (answers : List (Text × Answer)) (file : Option Text) : Option Nat :=
  (answers.findIdx? fun (path, _) => some path = file).or
    (answers.findIdx? fun (_, answer) => match answer with
      | .ok files => match files.getLast? with
          | some base => some base.path = file
          | none => false
      | .error _ => false)

def lone (path : Option Text) : List VirtSnapChainFile :=
  match path with
  | some path => [{ path }]
  | none => []

/-- The disks of the definition with what was answered for them, whether all of it is whole, and
the answers that are no disk's. -/
def claim : List (Text × Option Text) → List (Text × Answer) →
    List VirtSnapChainDisk × Bool × List (Text × Answer)
  | [], answers => ([], true, answers)
  | (target, file) :: disks, answers =>
      match position answers file with
      | none =>
          let (out, _, left) := claim disks answers
          (⟨target, lone file, none⟩ :: out, false, left)
      | some index =>
          let (out, complete, left) := claim disks (answers.eraseIdx index)
          match answers[index]? with
          | some (_, .ok files) =>
              let whole := files.getLast?.any fun base => base.backing.isNone
              (⟨target, files, none⟩ :: out, whole && complete, left)
          | some (path, .error error) =>
              (⟨target, lone (some path), some error⟩ :: out, false, left)
          | none => (out, complete, left)

/-- An answer that no disk claimed. -/
def unclaimed (answer : Text × Answer) : VirtSnapChainDisk :=
  match answer with
  | (path, .ok files) => ⟨path, files, none⟩
  | (path, .error error) => ⟨path, [], some error⟩

/-- The chain of every disk, and whether it is complete. -/
def readSnapChain (parseXml : Text → Option Element) (found : List (Text × Section)) :
    List VirtSnapChainDisk × Bool :=
  let document := ((take found keyXml).bind Section.ok).bind fun xml =>
    parseXmlDoc parseXml xml "domain".toList
  let (disks, named) := match document with
    | some root => defined root
    | none => ([], false)
  let answers := (found.filter fun (key, _) => key = keySnapChain).filterMap fun (_, found) =>
    answerOf found
  let (out, whole, left) := claim disks answers
  (out ++ left.map unclaimed, named && whole && !out.isEmpty)

/-- Every disk that can be snapshotted. -/
def disksIter (disks : List VirtSnapChainDisk) : List VirtSnapChainDisk :=
  disks.filter fun disk => !disk.target.isEmpty

/-! ### What a deletion leaves -/

/-- The files of the external layers in an element of a snapshot's document. -/
def externalFiles (root : Element) (element : Text) : List Text :=
  match root.child element with
  | none => []
  | some disks =>
      ((disks.children.filter fun disk => disk.name = "disk".toList).filter fun disk =>
        disk.attr "snapshot".toList = some "external".toList).filterMap fun disk =>
          (disk.child "source".toList).bind (·.attr "file".toList)

/-- Every file that a chain has or sits on. -/
def onChain (disks : List VirtSnapChainDisk) : List Text :=
  (disksIter disks).flatMap fun disk => disk.files.flatMap fun file =>
    file.path :: file.backing.toList

/-- The files off the chains, each once. -/
def offChain (onChain : List Text) (files : List Text) : List Text :=
  files.foldl (fun out file =>
    if !(onChain.contains file) && !(out.contains file) then out ++ [file] else out) []

def snapDeleteLeftovers (parseXml : Text → Option Element) (raw : Text) : Option (List Text) := do
  let found ← sections raw
  let snap ← (take found keyDelSnap).bind Section.ok
  let root ← parseXmlDoc parseXml snap "domainsnapshot".toList
  let (disks, complete) := readSnapChain parseXml found
  if !complete || (disksIter disks).any fun disk => disk.error.isSome then some []
  else
    some (offChain (onChain disks)
      (externalFiles root "disks".toList ++ externalFiles root "revertDisks".toList))

end ServerBox.Virt.Snapshot
