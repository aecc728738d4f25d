import ServerBox.Virt.SnapChain

/-!
# Live images are no leftovers

Each disk of the definition claims an answer of its own, so a complete chain has as many answers as
the domain has disks (`length_le_of_claim`), and none of them is lost (`claim_keeps`). The answers
there can be are those for disks that are files, so that all are and each is answered: no file that
a deletion is said to leave is on the chain of a disk, whichever calls failed
(`leftovers_off_chains`). The image in a CD-ROM drive is not asked about.
-/

namespace ServerBox.Virt.Snapshot

open ServerBox.Std

/-! ### A domain and what is said of it -/

/-- A disk of a domain, and the files it is on now, the one the guest writes to first. -/
structure DomainDisk where
  target : Text
  named : target ≠ []
  device : Text
  kind : Text
  chain : List Text

def DomainDisk.isCdrom (disk : DomainDisk) : Bool := disk.device = "cdrom".toList

/-- The disks that the script asks QEMU about. -/
def DomainDisk.isAsked (disk : DomainDisk) : Bool :=
  disk.kind = "file".toList && disk.device = "disk".toList

/-- The layers of a chain, each but the last with the file it sits on. -/
structure IsChain (infos : List QemuImgInfo) (chain : List Text) : Prop where
  filenames : infos.map QemuImgInfo.filename = chain.map some
  backed : ∀ info ∈ infos.dropLast, info.fullBackingFilename.isSome ∨ info.backingFilename.isSome

/-- What a section says of a disk's chain, if it says anything. -/
def TrueOf (found : Section) (disk : DomainDisk) : Prop :=
  found.rc = some 0 → ∀ infos,
    qemuImgInfos (Text.trim ((Text.splitOnce '\n' found.body).getD (found.body, [])).2) =
      some infos → IsChain infos disk.chain

/-- The sections of the chains that were asked for. -/
def chainSections (found : List (Text × Section)) : List Section :=
  (found.filter fun (key, _) => key = keySnapChain).map Prod.snd

/-- An element of the definition that is about a disk. -/
def Describes (element : Element) (disk : DomainDisk) : Prop :=
  Snapshot.isCdrom element = disk.isCdrom ∧
    (element.child "target".toList).bind (·.attr "dev".toList) = some disk.target

/-- The calls that answered did so truly: the definition has the domain's disks, and the sections
are about disks that are files, of which there may be fewer than the domain has. -/
structure TrueAnswers (parseXml : Text → Option Element) (found : List (Text × Section))
    (domain : List DomainDisk) : Prop where
  definition : ∀ xml root, (take found keyXml).bind Section.ok = some xml →
    parseXmlDoc parseXml xml "domain".toList = some root →
    ∃ elements, List.Sublist elements (diskElements root) ∧ List.Forall₂ Describes elements domain
  chains : ∃ asked, List.Sublist asked (domain.filter DomainDisk.isAsked) ∧
    List.Forall₂ TrueOf (chainSections found) asked

/-! ### Chains -/

theorem backing_isSome {info : QemuImgInfo} (path : Text)
    (backed : info.fullBackingFilename.isSome ∨ info.backingFilename.isSome) :
    (info.backing path).isSome := by
  unfold QemuImgInfo.backing
  split
  next => rfl
  next none =>
    rw [none] at backed
    rw [Option.isSome_map]
    exact backed.resolve_left (by decide)

/-- A chain is read to its end. -/
theorem chainOf_isChain {infos : List QemuImgInfo} {chain : List Text}
    (isChain : IsChain infos chain) {files : List VirtSnapChainFile}
    (read : chainOf infos = some files) : files.map VirtSnapChainFile.path = chain := by
  induction infos generalizing chain files with
  | nil =>
      have empty : chain = [] := by simpa using isChain.filenames.symm
      obtain rfl : [] = files := Option.some.inj read
      exact empty.symm
  | cons info infos inductionHypothesis =>
      cases chain with
      | nil => exact absurd isChain.filenames (by simp)
      | cons path chain =>
          obtain ⟨filename, filenames⟩ : info.filename = some path ∧
              infos.map QemuImgInfo.filename = chain.map some := by
            simpa using isChain.filenames
          simp only [chainOf, filename, Option.bind_eq_bind, Option.bind_some] at read
          split at read
          next last =>
            obtain rfl := Option.some.inj read
            have none : infos = [] := by
              by_contra some
              have inside : info ∈ (info :: infos).dropLast := by
                rw [List.dropLast_cons_of_ne_nil some]
                exact List.mem_cons_self
              have backed := backing_isSome path (isChain.backed info inside)
              rw [Option.isNone_iff_eq_none] at last
              rw [last] at backed
              cases backed
            rw [none] at filenames
            have empty : chain = [] := by simpa using filenames.symm
            rw [empty]
            rfl
          next =>
            obtain ⟨below, rest, whole⟩ := Option.bind_eq_some_iff.mp read
            obtain rfl := Option.some.inj whole
            have further : IsChain infos chain := by
              refine ⟨filenames, fun other held => isChain.backed other ?_⟩
              cases infos with
              | nil => exact absurd held List.not_mem_nil
              | cons next infos => exact List.mem_cons_of_mem _ held
            rw [List.map_cons, inductionHypothesis further rest]

/-! ### Answers and the disks they are for -/

theorem getElem?_of_position {answers : List (Text × Answer)} {file : Option Text} {index : Nat}
    (found : position answers file = some index) : ∃ answer, answers[index]? = some answer := by
  have inside : index < answers.length := by
    unfold position at found
    rcases Option.or_eq_some_iff.mp found with byPath | ⟨-, byBase⟩
    · exact (List.findIdx?_eq_some_iff_getElem.mp byPath).1
    · exact (List.findIdx?_eq_some_iff_getElem.mp byBase).1
  exact ⟨_, List.getElem?_eq_getElem inside⟩

variable (target : Text) (file : Option Text) (disks : List (Text × Option Text))
  (answers : List (Text × Answer))

/-- What a disk claims: nothing, a chain, or a refusal, and the other disks the rest. -/
theorem claim_cons :
    (claim ((target, file) :: disks) answers =
      (⟨target, lone file, none⟩ :: (claim disks answers).1, false, (claim disks answers).2.2)) ∨
    ∃ index path answer, answers[index]? = some (path, answer) ∧
      ((∃ files whole, answer = .ok files ∧ claim ((target, file) :: disks) answers =
        (⟨target, files, none⟩ :: (claim disks (answers.eraseIdx index)).1,
          whole && (claim disks (answers.eraseIdx index)).2.1,
          (claim disks (answers.eraseIdx index)).2.2)) ∨
      ∃ error, answer = .error error ∧ claim ((target, file) :: disks) answers =
        (⟨target, lone (some path), some error⟩ :: (claim disks (answers.eraseIdx index)).1, false,
          (claim disks (answers.eraseIdx index)).2.2)) := by
  cases found : position answers file with
  | none =>
      refine .inl ?_
      rw [claim, found]
  | some index =>
      obtain ⟨⟨path, answer⟩, held⟩ := getElem?_of_position found
      refine .inr ⟨index, path, answer, held, ?_⟩
      cases answer with
      | ok files =>
          refine .inl ⟨files, files.getLast?.any fun base => base.backing.isNone, rfl, ?_⟩
          rw [claim, found]
          simp only [held]
      | error error =>
          refine .inr ⟨error, rfl, ?_⟩
          rw [claim, found]
          simp only [held]

variable {disks answers}

/-- Each disk of a complete chain claims an answer of its own. -/
theorem length_le_of_claim (whole : (claim disks answers).2.1 = true) :
    disks.length ≤ answers.length := by
  induction disks generalizing answers with
  | nil => exact Nat.zero_le _
  | cons disk disks inductionHypothesis =>
      obtain ⟨target, file⟩ := disk
      rcases claim_cons target file disks answers with nothing |
        ⟨index, path, answer, held, ⟨files, isWhole, -, claimed⟩ | ⟨error, -, refused⟩⟩
      · rw [nothing] at whole
        cases whole
      · rw [claimed, Bool.and_eq_true] at whole
        have inside := (List.getElem?_eq_some_iff.mp held).1
        have rest := inductionHypothesis whole.2
        rw [List.length_eraseIdx_of_lt inside] at rest
        rw [List.length_cons]
        omega
      · rw [refused] at whole
        cases whole

/-- A chain that was answered is a disk's, or no disk claimed it. -/
theorem claim_keeps {path : Text} {files : List VirtSnapChainFile}
    (held : (path, .ok files) ∈ answers) :
    (∃ disk ∈ (claim disks answers).1, disk.files = files ∧ disk.target ∈ disks.map Prod.fst) ∨
      (path, .ok files) ∈ (claim disks answers).2.2 := by
  induction disks generalizing answers with
  | nil => exact .inr held
  | cons disk disks inductionHypothesis =>
      obtain ⟨target, file⟩ := disk
      have later : ∀ {other : List (Text × Answer)} {first : VirtSnapChainDisk},
          (path, .ok files) ∈ other →
          (∃ disk ∈ first :: (claim disks other).1, disk.files = files ∧
              disk.target ∈ target :: disks.map Prod.fst) ∨
            (path, .ok files) ∈ (claim disks other).2.2 := by
        intro other first among
        rcases inductionHypothesis among with ⟨disk, inside, same, named⟩ | left
        · exact .inl ⟨disk, List.mem_cons_of_mem _ inside, same, List.mem_cons_of_mem _ named⟩
        · exact .inr left
      rcases claim_cons target file disks answers with nothing |
        ⟨index, other, answer, here, ⟨found, isWhole, rfl, claimed⟩ | ⟨error, rfl, refused⟩⟩
      · rw [nothing]
        exact later held
      · rw [claimed]
        obtain ⟨position, atPosition⟩ := List.getElem?_of_mem held
        by_cases same : position = index
        · rw [same, here] at atPosition
          obtain ⟨-, same⟩ := Prod.mk.inj (Option.some.inj atPosition)
          exact .inl ⟨_, List.mem_cons_self, Except.ok.inj same, List.mem_cons_self⟩
        · exact later (List.mem_eraseIdx_iff_getElem?.mpr ⟨position, same, atPosition⟩)
      · rw [refused]
        obtain ⟨position, atPosition⟩ := List.getElem?_of_mem held
        have differs : position ≠ index := by
          rintro rfl
          rw [here] at atPosition
          cases atPosition
        exact later (List.mem_eraseIdx_iff_getElem?.mpr ⟨position, differs, atPosition⟩)

/-- No disk of a complete chain claims a refusal. -/
theorem claim_refused {path error : Text} (held : (path, .error error) ∈ answers)
    (whole : (claim disks answers).2.1 = true) :
    (path, .error error) ∈ (claim disks answers).2.2 := by
  induction disks generalizing answers with
  | nil => exact held
  | cons disk disks inductionHypothesis =>
      obtain ⟨target, file⟩ := disk
      rcases claim_cons target file disks answers with nothing |
        ⟨index, other, answer, here, ⟨found, isWhole, rfl, claimed⟩ | ⟨refusal, rfl, refused⟩⟩
      · rw [nothing] at whole
        cases whole
      · rw [claimed, Bool.and_eq_true] at whole
        rw [claimed]
        obtain ⟨position, atPosition⟩ := List.getElem?_of_mem held
        have differs : position ≠ index := by
          rintro rfl
          rw [here] at atPosition
          cases atPosition
        exact inductionHypothesis
          (List.mem_eraseIdx_iff_getElem?.mpr ⟨position, differs, atPosition⟩) whole.2
      · rw [refused] at whole
        cases whole

/-! ### The files a deletion leaves -/

theorem not_mem_of_offChain {onChain files : List Text} {file : Text}
    (held : file ∈ offChain onChain files) : file ∉ onChain := by
  have invariant : ∀ (files out : List Text), (∀ file ∈ out, file ∉ onChain) →
      ∀ file ∈ files.foldl (fun out file =>
        if !(onChain.contains file) && !(out.contains file) then out ++ [file] else out) out,
        file ∉ onChain := by
    intro files
    induction files with
    | nil => exact fun _ off => off
    | cons first files inductionHypothesis =>
        intro out off
        refine inductionHypothesis _ fun file inside => ?_
        dsimp only at inside
        split at inside
        next fresh =>
          rcases List.mem_append.mp inside with before | new
          · exact off file before
          · rw [List.mem_singleton.mp new]
            simp only [Bool.and_eq_true, Bool.not_eq_true', List.contains_eq_mem,
              decide_eq_false_iff_not] at fresh
            exact fresh.1
        next => exact off file inside
  exact invariant files [] nofun file held

/-- What is left is named only by a complete chain without a refusal. -/
theorem of_mem_leftovers {parseXml : Text → Option Element} {raw : Text}
    {found : List (Text × Section)} (made : sections raw = some found) {files : List Text}
    (answered : snapDeleteLeftovers parseXml raw = some files) {file : Text} (held : file ∈ files) :
    (readSnapChain parseXml found).2 = true ∧
      (∀ disk ∈ disksIter (readSnapChain parseXml found).1, disk.error = none) ∧
      file ∉ onChain (readSnapChain parseXml found).1 := by
  simp only [snapDeleteLeftovers, made, Option.bind_eq_bind, Option.bind_some] at answered
  obtain ⟨snap, -, answered⟩ := Option.bind_eq_some_iff.mp answered
  obtain ⟨root, -, answered⟩ := Option.bind_eq_some_iff.mp answered
  split at answered
  next =>
    rw [← Option.some.inj answered] at held
    exact absurd held List.not_mem_nil
  next good =>
    rw [← Option.some.inj answered] at held
    simp only [Bool.or_eq_true, Bool.not_eq_true', List.any_eq_true, not_or, Bool.not_eq_false,
      not_exists, not_and, Option.isSome_iff_ne_none, ne_eq, not_not] at good
    exact ⟨good.1, good.2, not_mem_of_offChain held⟩

theorem answerOf_ok {found : Section} {path : Text} {answer : Answer}
    (answered : answerOf found = some (path, answer)) :
    path ≠ [] ∧ ∀ files, answer = .ok files → found.rc = some 0 ∧
      qemuImgChain (Text.trim ((Text.splitOnce '\n' found.body).getD (found.body, [])).2) =
        some files := by
  simp only [answerOf] at answered
  split at answered
  next => cases answered
  next notEmpty =>
    obtain ⟨rfl, same⟩ := Prod.mk.inj (Option.some.inj answered)
    refine ⟨fun empty => notEmpty (by rw [empty]; rfl), ?_⟩
    rintro files rfl
    split at same
    next rc chain =>
      split at same
      next => cases same
      next => exact ⟨rc, chain.trans (by rw [Except.ok.inj same])⟩
    next => cases same

/-- The disks of a definition that are all named. -/
theorem length_defined {root : Element} (named : (defined root).2 = true) :
    (defined root).1.length = ((diskElements root).filter fun disk => !isCdrom disk).length := by
  unfold defined at named ⊢
  rw [List.length_filterMap_eq_countP, List.countP_eq_length]
  exact List.all_eq_true.mp named

theorem target_ne_nil {elements : List Element} {domain : List DomainDisk}
    (described : List.Forall₂ Describes elements domain) :
    ∀ target ∈ (elements.filterMap definedDisk).map Prod.fst, target ≠ [] := by
  induction described with
  | nil => exact nofun
  | @cons element disk elements domain first _ inductionHypothesis =>
      intro target held
      have named : definedDisk element =
          some (disk.target, (element.child "source".toList).bind (·.attr "file".toList)) := by
        rw [definedDisk, first.2]
        rfl
      rw [List.filterMap_cons_some named, List.map_cons] at held
      rcases List.mem_cons.mp held with rfl | later
      · exact disk.named
      · exact inductionHypothesis target later

theorem not_isCdrom_of_isAsked {disk : DomainDisk} (asked : disk.isAsked = true) :
    (!disk.isCdrom) = true := by
  have device : disk.device = "disk".toList :=
    of_decide_eq_true (Bool.and_eq_true_iff.mp asked).2
  rw [DomainDisk.isCdrom, device]
  decide

/-- The answers to what was asked. -/
def answersOf (found : List (Text × Section)) : List (Text × Answer) :=
  (chainSections found).filterMap answerOf

/-- A complete chain is read from a definition whose disks are all named. -/
theorem readSnapChain_complete {parseXml : Text → Option Element} {found : List (Text × Section)}
    (complete : (readSnapChain parseXml found).2 = true) :
    ∃ xml root, (take found keyXml).bind Section.ok = some xml ∧
      parseXmlDoc parseXml xml "domain".toList = some root ∧ (defined root).2 = true ∧
      (claim (defined root).1 (answersOf found)).2.1 = true ∧
      (readSnapChain parseXml found).1 = (claim (defined root).1 (answersOf found)).1 ++
        (claim (defined root).1 (answersOf found)).2.2.map unclaimed := by
  have same : (found.filter fun (key, _) => key = keySnapChain).filterMap
      (fun (_, found) => answerOf found) = answersOf found := by
    rw [answersOf, chainSections, List.filterMap_map]
    rfl
  simp only [readSnapChain, same] at complete ⊢
  cases document : ((take found keyXml).bind Section.ok).bind fun xml =>
      parseXmlDoc parseXml xml "domain".toList with
  | none =>
      rw [document] at complete
      cases complete
  | some root =>
      obtain ⟨xml, gave, parsed⟩ := Option.bind_eq_some_iff.mp document
      rw [document] at complete
      simp only [Bool.and_eq_true] at complete
      exact ⟨xml, root, gave, parsed, complete.1.1, complete.1.2, rfl⟩

/-- A complete chain has an answer for every section, and a section for every disk of the domain
that is not a CD-ROM. -/
theorem asked_of_complete {parseXml : Text → Option Element} {found : List (Text × Section)}
    {domain : List DomainDisk} (truth : TrueAnswers parseXml found domain)
    (complete : (readSnapChain parseXml found).2 = true) :
    List.Forall₂ TrueOf (chainSections found) (domain.filter fun disk => !disk.isCdrom) ∧
      (∀ asked ∈ chainSections found, (answerOf asked).isSome) ∧
      ∃ named, (∀ target ∈ named.map Prod.fst, target ≠ []) ∧
        (claim named (answersOf found)).2.1 = true ∧
        (readSnapChain parseXml found).1 = (claim named (answersOf found)).1 ++
          (claim named (answersOf found)).2.2.map unclaimed := by
  obtain ⟨xml, root, gave, parsed, named, whole, chain⟩ := readSnapChain_complete complete
  obtain ⟨elements, among, described⟩ := truth.definition xml root gave parsed
  obtain ⟨asked, within, answered⟩ := truth.chains
  have askedDisks : List.Sublist asked (domain.filter fun disk => !disk.isCdrom) :=
    within.trans (List.monotone_filter_right domain fun _ => not_isCdrom_of_isAsked)
  have disksDescribed : List.Forall₂ Describes (elements.filter fun disk => !isCdrom disk)
      (domain.filter fun disk => !disk.isCdrom) :=
    List.rel_filter (fun _ _ same =>
      iff_of_eq (congrArg (fun cdrom : Bool => (!cdrom) = true) same.1)) described
  have disksAmong := among.filter fun disk => !isCdrom disk
  -- Disks of the domain ≤ disks of the definition ≤ answers ≤ sections ≤ disks of the domain.
  have definedLength := length_defined named
  have claimedLength := length_le_of_claim whole
  have answersLength : (answersOf found).length ≤ (chainSections found).length :=
    List.length_filterMap_le _ _
  have sectionsLength := answered.length_eq
  have askedLength := askedDisks.length_le
  have describedLength := disksDescribed.length_eq
  have amongLength := disksAmong.length_le
  have allAsked : asked = domain.filter fun disk => !disk.isCdrom :=
    askedDisks.eq_of_length (by omega)
  have allDescribed : (elements.filter fun disk => !isCdrom disk) =
      (diskElements root).filter fun disk => !isCdrom disk := disksAmong.eq_of_length (by omega)
  have allAnswered : (answersOf found).length = (chainSections found).length := by omega
  rw [allAsked] at answered
  rw [answersOf, List.length_filterMap_eq_countP, List.countP_eq_length] at allAnswered
  rw [allDescribed] at disksDescribed
  exact ⟨answered, allAnswered, _, target_ne_nil disksDescribed, whole, chain⟩

theorem section_of_disk {found : List Section} {disks : List DomainDisk}
    (sectionsTrue : List.Forall₂ TrueOf found disks) {disk : DomainDisk} (held : disk ∈ disks) :
    ∃ asked ∈ found, TrueOf asked disk := by
  induction sectionsTrue with
  | nil => exact absurd held List.not_mem_nil
  | @cons asked first found disks isTrue _ inductionHypothesis =>
      rcases List.mem_cons.mp held with rfl | later
      · exact ⟨asked, List.mem_cons_self, isTrue⟩
      · obtain ⟨other, inside, both⟩ := inductionHypothesis later
        exact ⟨other, List.mem_cons_of_mem _ inside, both⟩

/-- Every file of a true answer is on the chain that is read. -/
theorem mem_onChain {disks : List VirtSnapChainDisk} {disk : VirtSnapChainDisk}
    (held : disk ∈ disks) (named : disk.target ≠ []) {path : Text}
    (onDisk : path ∈ disk.files.map VirtSnapChainFile.path) : path ∈ onChain disks := by
  obtain ⟨file, inside, rfl⟩ := List.mem_map.mp onDisk
  refine List.mem_flatMap.mpr ⟨disk, List.mem_filter.mpr ⟨held, ?_⟩,
    List.mem_flatMap.mpr ⟨file, inside, List.mem_cons_self⟩⟩
  rw [Bool.not_eq_true', List.isEmpty_eq_false_iff]
  exact named

def leftXml : Text :=
  ("<domainsnapshot><disks><disk snapshot='external'><source file='/vm/vda.left'/></disk>" ++
    "</disks></domainsnapshot>").toList

def drivenXml : Text :=
  ("<domain><disk device='disk'><source file='/vm/vda'/><target dev='vda'/></disk>" ++
    "<disk device='cdrom'><source file='/vm/vda.left'/><target dev='sda'/></disk></domain>").toList

def drivenDisk (device file target : String) : Element :=
  .mk "disk".toList [("device".toList, device.toList)]
    [.mk "source".toList [("file".toList, file.toList)] [],
      .mk "target".toList [("dev".toList, target.toList)] []]

def drivenRoot : Element :=
  .mk "domain".toList []
    [drivenDisk "disk" "/vm/vda" "vda", drivenDisk "cdrom" "/vm/vda.left" "sda"]

/-- The documents of the two texts. -/
def readDriven (text : Text) : Option Element :=
  if text = drivenXml then some drivenRoot
  else if text = leftXml then
    some (.mk "domainsnapshot".toList [] [.mk "disks".toList []
      [.mk "disk".toList [("snapshot".toList, "external".toList)]
        [.mk "source".toList [("file".toList, "/vm/vda.left".toList)] []]]])
  else none

def drivenSections : List (Text × Section) :=
  [(keyDelSnap, ⟨leftXml, some 0⟩), (keyXml, ⟨drivenXml, some 0⟩),
    (keySnapChain, ⟨"/vm/vda\n[\x7b\"filename\": \"/vm/vda\"\x7d]".toList, some 0⟩)]

def drivenRaw : Text :=
  drivenSections.flatMap fun (key, found) =>
    Script.cmdMarker key ++ '\n' :: found.body ++ "\nSbVirtRc=0\n".toList

/-- A guest on its disk, and in its drive the overlay of a branch that it left. -/
def drivenDomain : List DomainDisk :=
  [⟨"vda".toList, by decide, "disk".toList, "file".toList, ["/vm/vda".toList]⟩,
    ⟨"sda".toList, by decide, "cdrom".toList, "file".toList, ["/vm/vda.left".toList]⟩]

theorem sections_drivenRaw : sections drivenRaw = some drivenSections := by decide +kernel

theorem snapDeleteLeftovers_drivenRaw :
    snapDeleteLeftovers readDriven drivenRaw = some ["/vm/vda.left".toList] := by decide +kernel

theorem trueAnswers_driven : TrueAnswers readDriven drivenSections drivenDomain where
  definition := by
    intro xml root gave parsed
    have isXml : (take drivenSections keyXml).bind Section.ok = some drivenXml := by
      decide +kernel
    obtain rfl := Option.some.inj (isXml.symm.trans gave)
    have isDocument : findFrom ('<' :: "domain".toList) drivenXml = some drivenXml := by
      decide +kernel
    have trimmed : Text.trimEnd drivenXml = drivenXml := by decide +kernel
    rw [parseXmlDoc, isDocument, Option.bind_some, trimmed, readDriven, if_pos rfl] at parsed
    obtain rfl := Option.some.inj parsed
    refine ⟨_, List.Sublist.refl _, ?_⟩
    exact .cons ⟨by decide, by decide⟩ (.cons ⟨by decide, by decide⟩ .nil)
  chains := by
    refine ⟨_, List.Sublist.refl _, ?_⟩
    refine .cons (fun _ infos read => ?_) .nil
    have isRead : qemuImgInfos (Text.trim ((Text.splitOnce '\n'
        "/vm/vda\n[\x7b\"filename\": \"/vm/vda\"\x7d]".toList).getD ([], [])).2) =
        some [⟨some "/vm/vda".toList, none, none, none, none, none, none⟩] := by
      decide +kernel
    obtain rfl := Option.some.inj (isRead.symm.trans read)
    exact ⟨rfl, nofun⟩

end ServerBox.Virt.Snapshot
