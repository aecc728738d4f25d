import Mathlib.Data.List.Induction
import Mathlib.Data.Rat.Defs
import Mathlib.Algebra.Order.Field.Rat
import Mathlib.Tactic.Ring
import Mathlib.Tactic.Linarith
import ServerBox.Std.Bisect

/-!
# City-level data read off disk

One address family's records: the header and the bucket table a file is opened with, and the
search of one bucket that a lookup makes.
-/

namespace ServerBox.Geo

open Std.Bisect

/-- A point on the globe, in degrees. The degrees of a record are quotients of its two numbers,
kept exactly: a quotient is inside the range of a coordinate exactly where its `double` is. -/
structure GeoCoord where
  lat : ℚ
  lon : ℚ
  lat_mem : -90 ≤ lat ∧ lat ≤ 90
  lon_mem : -180 ≤ lon ∧ lon ≤ 180
  deriving DecidableEq

def GeoCoord.tryNew (lat lon : ℚ) : Option GeoCoord :=
  if latOut : lat < -90 ∨ 90 < lat then none
  else if lonOut : lon < -180 ∨ 180 < lon then none
  else
    some {
      lat := lat
      lon := lon
      lat_mem := by simpa only [not_or, not_lt] using latOut
      lon_mem := by simpa only [not_or, not_lt] using lonOut }

inductive InternetAddressType where
  | IPv4
  | IPv6
  | unix
  deriving DecidableEq

/-- The type of an address decides how many bytes it has, but for the path of a unix socket. -/
def InternetAddressType.Sized : InternetAddressType → List UInt8 → Prop
  | IPv4, raw => raw.length = 4
  | IPv6, raw => raw.length = 16
  | unix, _ => True

structure InternetAddress where
  type : InternetAddressType
  rawAddress : List UInt8
  sized : type.Sized rawAddress

/-- The families of a bundle, by the number in its header. -/
inductive Family where
  | four
  | six
  deriving DecidableEq

namespace Family

def layoutOf : Nat → Option Family
  | 4 => some four
  | 6 => some six
  | _ => none

def keyBits : Family → Nat
  | four => 32
  | six => 48

def bucketBits : Family → Nat
  | four => 8
  | six => 16

def buckets (family : Family) : Nat := 1 <<< family.bucketBits

def tableBytes (family : Family) : Nat := (family.buckets + 1) * 4

def spanBits (family : Family) : Nat := family.keyBits - family.bucketBits

def offsetBytes (family : Family) : Nat := (family.keyBits - family.bucketBits) / 8

def stride (family : Family) : Nat := family.offsetBytes + 4

end Family

/-- Big-endian bytes as a number. -/
def bigEndian (bytes : List UInt8) : Nat :=
  bytes.foldl (fun number byte => (number <<< 8) ||| byte.toNat) 0

def getInt16 (high low : UInt8) : Int :=
  let number := bigEndian [high, low]
  if number < 2 ^ 15 then number else number - 2 ^ 16

/-- The entries of a bucket table. -/
def entriesOf : List UInt8 → List Nat
  | a :: b :: c :: d :: rest => bigEndian [a, b, c, d] :: entriesOf rest
  | _ => []

/-- No entry is below the one before it or above the count. -/
def Ascending (count : Nat) : Nat → List Nat → Prop
  | _, [] => True
  | previous, entry :: rest => previous ≤ entry ∧ entry ≤ count ∧ Ascending count entry rest

instance (count : Nat) : ∀ previous entries, Decidable (Ascending count previous entries)
  | _, [] => .isTrue trivial
  | previous, entry :: rest =>
    have := instDecidableAscending count entry rest
    inferInstanceAs (Decidable (previous ≤ entry ∧ entry ≤ count ∧ Ascending count entry rest))

def magic : List UInt8 := [0x53, 0x42, 0x47, 0x58]

def headerBytes : Nat := 16

/-- The one latitude that means nothing is allocated. -/
def noData : Int := -32768

def quantum : ℚ := 32767

def recordsAt (family : Family) : Nat := headerBytes + family.tableBytes

/-- An opened file: its table has an entry for each bucket and a closing one, ascends from the
first record to the last, and the file ends with the last record. -/
structure GeoBundle where
  file : List UInt8
  family : Family
  year : Nat
  month : Nat
  count : Nat
  table : List Nat
  table_length : table.length = family.buckets + 1
  table_ascending : Ascending count 0 table
  table_first : table[0]? = some 0
  table_last : table[family.buckets]? = some count
  file_length : file.length = recordsAt family + count * family.stride

namespace GeoBundle

def format : Nat := 1

theorem entriesOf_length (entries : Nat) (bytes : List UInt8)
    (length : bytes.length = entries * 4) :
    (entriesOf bytes).length = entries := by
  induction entries generalizing bytes with
  | zero =>
    rw [Nat.zero_mul, List.length_eq_zero_iff] at length
    rw [length]
    rfl
  | succ entries inductionHypothesis =>
    match bytes, length with
    | a :: b :: c :: d :: rest, length =>
      simp only [List.length_cons] at length
      rw [entriesOf, List.length_cons, inductionHypothesis rest (by omega)]
    | [], length | [_], length | [_, _], length | [_, _, _], length =>
      simp only [List.length_cons, List.length_nil] at length
      omega

/-- `GeoBundle.open`, over the bytes of the file at the path. -/
def open_ (file : List UInt8) : Option GeoBundle :=
  match file with
  | m0 :: m1 :: m2 :: m3 :: formatByte :: familyByte :: y0 :: y1 :: monthByte ::
      c0 :: c1 :: c2 :: c3 :: _ :: _ :: _ :: rest =>
    if [m0, m1, m2, m3] ≠ magic then none
    else if formatByte.toNat ≠ format then none
    else
      match Family.layoutOf familyByte.toNat with
      | none => none
      | some family =>
        let year := bigEndian [y0, y1]
        let month := monthByte.toNat
        let count := bigEndian [c0, c1, c2, c3]
        if year = 0 ∨ month < 1 ∨ 12 < month then none
        else
          let bytes := rest.take family.tableBytes
          if short : bytes.length < family.tableBytes then none
          else if ascending : ¬Ascending count 0 (entriesOf bytes) then none
          else if ends : (entriesOf bytes)[0]? ≠ some 0 ∨
              (entriesOf bytes)[family.buckets]? ≠ some count then none
          else if length : file.length ≠ recordsAt family + count * family.stride then none
          else
            some {
              file := file
              family := family
              year := year
              month := month
              count := count
              table := entriesOf bytes
              table_length := entriesOf_length _ _
                (Nat.le_antisymm (List.length_take_le _ _) (not_lt.mp short))
              table_ascending := not_not.mp ascending
              table_first := not_not.mp (not_or.mp ends).1
              table_last := not_not.mp (not_or.mp ends).2
              file_length := not_not.mp length }
  | _ => none

/-- Whether the address is of the family this holds. -/
def covers (bundle : GeoBundle) (address : InternetAddress) : Bool :=
  (address.type == .IPv6) == (bundle.family == .six)

/-- Bytes of the file; `none` is a read that leaves it. -/
def read (bundle : GeoBundle) (at_ length : Nat) : Option (List UInt8) :=
  if at_ + length ≤ bundle.file.length then some ((bundle.file.drop at_).take length) else none

def startAt (bundle : GeoBundle) (index : Nat) : Option Nat :=
  (bundle.read (recordsAt bundle.family + index * bundle.family.stride)
    bundle.family.offsetBytes).map bigEndian

/-- The coordinate of a record's last four bytes. -/
def coordOf : List UInt8 → Option GeoCoord
  | [a, b, c, d] =>
    if getInt16 a b = noData then none
    else GeoCoord.tryNew (getInt16 a b / quantum * 90) (getInt16 c d / quantum * 180)
  | _ => none

/-- The leading bits of the address, `none` when it has fewer bytes than that. -/
def keyOf (bundle : GeoBundle) (address : InternetAddress) : Option Nat :=
  let raw := address.rawAddress.take (bundle.family.keyBits / 8)
  if raw.length < bundle.family.keyBits / 8 then none else some (bigEndian raw)

def bucketOf (bundle : GeoBundle) (key : Nat) : Nat := key >>> bundle.family.spanBits

def offsetOf (bundle : GeoBundle) (key : Nat) : Nat := key &&& ((1 <<< bundle.family.spanBits) - 1)

/-- `lookup`; `none` is a read that leaves the file or the table. An address too short for a key
is the error that the call catches. -/
def lookup (bundle : GeoBundle) (address : InternetAddress) : Option (Option GeoCoord) :=
  if ¬bundle.covers address then some none
  else
    match bundle.keyOf address with
    | none => some none
    | some key => do
      let lo ← bundle.table[bundle.bucketOf key]?
      let hi ← bundle.table[bundle.bucketOf key + 1]?
      if lo = hi then some none
      else
        match ← lastAtMost bundle.startAt (bundle.offsetOf key) lo hi none with
        | none => some none
        | some found =>
          let record ← bundle.read (recordsAt bundle.family + found * bundle.family.stride +
            bundle.family.offsetBytes) 4
          some (coordOf record)

/-! ## Reads stay inside -/

theorem bigEndian_lt (bytes : List UInt8) : bigEndian bytes < 256 ^ bytes.length := by
  induction bytes using List.reverseRecOn with
  | nil => exact Nat.one_pos
  | append_singleton bytes byte inductionHypothesis =>
    have byteLt : byte.toNat < 2 ^ 8 := byte.toNat_lt
    have shifted : bigEndian (bytes ++ [byte]) = bigEndian bytes <<< 8 + byte.toNat := by
      rw [Nat.shiftLeft_add_eq_or_of_lt byteLt]
      exact List.foldl_append
    rw [shifted, Nat.shiftLeft_eq, List.length_append, List.length_singleton, pow_succ]
    omega

variable {bundle : GeoBundle}

/-- Where a bucket's records begin. -/
def first (bundle : GeoBundle) (bucket : Nat) : Nat := (bundle.table[bucket]?).getD 0

theorem table_get {bucket : Nat} (le : bucket ≤ bundle.family.buckets) :
    bundle.table[bucket]? = some (bundle.first bucket) := by
  have within : bucket < bundle.table.length := by rw [bundle.table_length]; omega
  rw [first, List.getElem?_eq_getElem within, Option.getD_some]

/-- Entries of an ascending table do not fall, and stay at most the count. -/
theorem ascending_get {count previous : Nat} {entries : List Nat}
    (ascending : Ascending count previous entries) {index entry : Nat}
    (get : entries[index]? = some entry) :
    previous ≤ entry ∧ entry ≤ count ∧
      ∀ next, entries[index + 1]? = some next → entry ≤ next := by
  induction entries generalizing previous index entry with
  | nil => cases get
  | cons head rest inductionHypothesis =>
    obtain ⟨previousLe, headLe, restAscending⟩ := ascending
    cases index with
    | zero =>
      cases get
      refine ⟨previousLe, headLe, ?_⟩
      intro next nextGet
      have restGet : rest[0]? = some next := nextGet
      exact (inductionHypothesis restAscending restGet).1
    | succ index =>
      obtain ⟨headLeEntry, entryLe, later⟩ := inductionHypothesis restAscending get
      exact ⟨le_trans previousLe headLeEntry, entryLe, later⟩

theorem first_le_next {bucket : Nat} (lt : bucket < bundle.family.buckets) :
    bundle.first bucket ≤ bundle.first (bucket + 1) :=
  (ascending_get bundle.table_ascending (table_get (le_of_lt lt))).2.2 _ (table_get lt)

theorem first_le_count {bucket : Nat} (le : bucket ≤ bundle.family.buckets) :
    bundle.first bucket ≤ bundle.count :=
  (ascending_get bundle.table_ascending (table_get le)).2.1

/-- A key's bucket is one of the table's. -/
theorem bucketOf_lt {address : InternetAddress} {key : Nat}
    (hasKey : bundle.keyOf address = some key) : bundle.bucketOf key < bundle.family.buckets := by
  rw [keyOf] at hasKey
  split at hasKey
  · cases hasKey
  next enough =>
    cases hasKey
    have bound := bigEndian_lt (address.rawAddress.take (bundle.family.keyBits / 8))
    have length := le_antisymm (List.length_take_le _ _) (not_lt.mp enough)
    rw [length] at bound
    rw [bucketOf, Nat.shiftRight_eq_div_pow, Family.buckets, Nat.one_shiftLeft]
    refine Nat.div_lt_of_lt_mul (lt_of_lt_of_eq bound ?_)
    cases bundle.family <;> decide

theorem keyOf_of_covers {address : InternetAddress} (covered : bundle.covers address = true)
    (notUnix : address.type ≠ .unix) : ∃ key, bundle.keyOf address = some key := by
  obtain ⟨type, raw, sized⟩ := address
  refine ⟨_, if_neg ?_⟩
  rw [List.length_take, not_lt, le_min_iff]
  refine ⟨le_refl _, ?_⟩
  simp only [covers] at covered notUnix ⊢
  revert covered
  cases bundle.family <;> cases type <;> intro covered
  case four.IPv4 => exact ge_of_eq sized
  case six.IPv6 => rw [show raw.length = 16 from sized]; decide
  case four.unix | six.unix => exact absurd rfl notUnix
  case four.IPv6 | six.IPv4 => cases covered

/-- Every record of the file is read whole, its start and the coordinate after it. -/
theorem read_record {index within length : Nat} (lt : index < bundle.count)
    (le : within + length ≤ bundle.family.stride) :
    bundle.read (recordsAt bundle.family + index * bundle.family.stride + within) length =
      some ((bundle.file.drop
        (recordsAt bundle.family + index * bundle.family.stride + within)).take length) := by
  have record : (index + 1) * bundle.family.stride ≤ bundle.count * bundle.family.stride :=
    Nat.mul_le_mul_right _ lt
  rw [Nat.succ_mul] at record
  refine if_pos ?_
  rw [bundle.file_length]
  omega

/-! ## What a lookup is for -/

/-- A record: the first offset of its bucket that it covers, and its two quantised degrees. -/
structure Record where
  start : Nat
  lat : Int
  lon : Int
  deriving DecidableEq

/-- The record says where it is, or nothing: no data, or a longitude that is none. -/
def Record.Answers (record : Record) (answer : Option GeoCoord) : Prop :=
  (answer = none ↔ record.lat = noData ∨ record.lon = -32768) ∧
    ∀ coord ∈ answer, coord.lat = record.lat / quantum * 90 ∧
      coord.lon = record.lon / quantum * 180

def recordOf (start coord : List UInt8) : Record where
  start := bigEndian start
  lat := getInt16 (coord.getD 0 0) (coord.getD 1 0)
  lon := getInt16 (coord.getD 2 0) (coord.getD 3 0)

/-- The record of the file at an index. -/
def recordAt (bundle : GeoBundle) (index : Nat) : Record :=
  let at_ := recordsAt bundle.family + index * bundle.family.stride
  recordOf ((bundle.file.drop at_).take bundle.family.offsetBytes)
    ((bundle.file.drop (at_ + bundle.family.offsetBytes)).take 4)

/-- The records of each bucket are sorted by start. -/
def Sorted (bundle : GeoBundle) : Prop :=
  ∀ bucket < bundle.family.buckets, ∀ i j, bundle.first bucket ≤ i → i ≤ j →
    j < bundle.first (bucket + 1) → (bundle.recordAt i).start ≤ (bundle.recordAt j).start

/-- The record with the last start of the key's bucket not above the key's offset answers, and
nothing does when there is none. -/
def Exact (bundle : GeoBundle) (key : Nat) (answer : Option GeoCoord) : Prop :=
  let first := bundle.first (bundle.bucketOf key)
  let last := bundle.first (bundle.bucketOf key + 1)
  let start index := (bundle.recordAt index).start
  (∃ index, IsLast start (bundle.offsetOf key) first last index ∧
      (bundle.recordAt index).Answers answer) ∨
    ((∀ index, first ≤ index → index < last → bundle.offsetOf key < start index) ∧
      answer = none)

theorem getInt16_bounds (high low : UInt8) :
    -32768 ≤ getInt16 high low ∧ getInt16 high low ≤ 32767 := by
  have bound := bigEndian_lt [high, low]
  simp only [List.length_cons, List.length_nil, Nat.zero_add, Nat.reduceAdd, Nat.reducePow]
    at bound
  simp only [getInt16]
  split <;> omega

/-- Quantised degrees make a coordinate exactly when the longitude is not below the quantum. -/
theorem tryNew_quantised {lat lon : Int} (latBounds : -32768 ≤ lat ∧ lat ≤ 32767)
    (lonBounds : -32768 ≤ lon ∧ lon ≤ 32767) (latData : lat ≠ noData) (start : Nat) :
    Record.Answers ⟨start, lat, lon⟩
      (GeoCoord.tryNew (lat / quantum * 90) (lon / quantum * 180)) := by
  have latLower : (-32767 : ℚ) ≤ lat := by
    have : -32767 ≤ lat := by rw [noData] at latData; omega
    exact_mod_cast this
  have latUpper : (lat : ℚ) ≤ 32767 := by exact_mod_cast latBounds.2
  have lonUpper : (lon : ℚ) ≤ 32767 := by exact_mod_cast lonBounds.2
  have latIn : ¬((lat : ℚ) / quantum * 90 < -90 ∨ 90 < (lat : ℚ) / quantum * 90) := by
    rw [quantum, not_or, not_lt, not_lt]
    constructor <;> linarith
  rw [GeoCoord.tryNew, dif_neg latIn]
  by_cases lonData : lon = -32768
  · have lonOut : (lon : ℚ) / quantum * 180 < -180 ∨ 180 < (lon : ℚ) / quantum * 180 := by
      rw [lonData, quantum]
      norm_num
    rw [dif_pos lonOut]
    exact ⟨iff_of_true rfl (.inr lonData), fun coord none => nomatch none⟩
  · have lonLower : (-32767 : ℚ) ≤ lon := by
      have : -32767 ≤ lon := by omega
      exact_mod_cast this
    have lonIn : ¬((lon : ℚ) / quantum * 180 < -180 ∨ 180 < (lon : ℚ) / quantum * 180) := by
      rw [quantum, not_or, not_lt, not_lt]
      constructor <;> linarith
    rw [dif_neg lonIn]
    refine ⟨iff_of_false (Option.some_ne_none _) (not_or.mpr ⟨latData, lonData⟩), ?_⟩
    rintro coord ⟨⟩
    exact ⟨rfl, rfl⟩

/-- The last four bytes of a record answer for it. -/
theorem coordOf_answers (start coord : List UInt8) (length : coord.length = 4) :
    (recordOf start coord).Answers (coordOf coord) := by
  match coord, length with
  | [a, b, c, d], _ =>
    by_cases latData : getInt16 a b = noData
    · rw [coordOf, if_pos latData]
      exact ⟨iff_of_true rfl (.inl latData), fun coord none => nomatch none⟩
    · rw [coordOf, if_neg latData]
      exact tryNew_quantised (getInt16_bounds a b) (getInt16_bounds c d) latData _

/-- The start of a record is read where the record is. -/
theorem startAt_eq {index : Nat} (lt : index < bundle.count) :
    bundle.startAt index = some (bundle.recordAt index).start := by
  have stride : 0 + bundle.family.offsetBytes ≤ bundle.family.stride := by
    rw [Family.stride]
    omega
  have whole := read_record lt stride
  rw [Nat.add_zero] at whole
  rw [startAt, whole]
  rfl

/-- A covered address is looked up in its bucket: the search, and the record it finds. -/
theorem lookup_of_key {address : InternetAddress} {key : Nat}
    (covered : bundle.covers address = true) (hasKey : bundle.keyOf address = some key)
    {result : Option Nat}
    (searched : lastAtMost bundle.startAt (bundle.offsetOf key)
      (bundle.first (bundle.bucketOf key)) (bundle.first (bundle.bucketOf key + 1)) none =
        some result)
    (within : ∀ index ∈ result, index < bundle.count) :
    ∃ answer, bundle.lookup address = some answer ∧
      (result = none → answer = none) ∧
      ∀ index ∈ result, (bundle.recordAt index).Answers answer := by
  have bucketLt := bucketOf_lt hasKey
  simp only [lookup, covered, not_true, if_false, hasKey, table_get (le_of_lt bucketLt),
    table_get bucketLt, Option.bind_eq_bind, Option.bind_some, searched]
  split
  next same =>
    -- The search of an empty bucket finds nothing either.
    rw [same, lastAtMost, if_neg (lt_irrefl _)] at searched
    cases searched
    exact ⟨none, rfl, fun _ => rfl, fun index found => nomatch found⟩
  next =>
    cases result with
    | none => exact ⟨none, rfl, fun _ => rfl, fun index found => nomatch found⟩
    | some found =>
      have whole := read_record (within found rfl)
        (le_refl (bundle.family.offsetBytes + 4))
      simp only [whole, Option.bind_some]
      refine ⟨_, rfl, (fun isNone => nomatch isNone), ?_⟩
      rintro index ⟨⟩
      refine coordOf_answers _ _ ?_
      rw [List.length_take, List.length_drop, bundle.file_length]
      have record : (found + 1) * bundle.family.stride ≤ bundle.count * bundle.family.stride :=
        Nat.mul_le_mul_right _ (within found rfl)
      rw [Nat.succ_mul] at record
      have stride : bundle.family.stride = bundle.family.offsetBytes + 4 := rfl
      omega

/-- A bundle reads the file it was opened on. -/
theorem file_of_open {file : List UInt8} (opened : open_ file = some bundle) :
    bundle.file = file := by
  rw [open_.eq_def] at opened
  split at opened
  next =>
    simp only [Option.ite_none_left_eq_some] at opened
    obtain ⟨_, _, opened⟩ := opened
    split at opened
    next => cases opened
    next =>
      simp only [Option.ite_none_left_eq_some, Option.dite_none_left_eq_some,
        Option.some_inj] at opened
      obtain ⟨_, _, _, _, _, rfl⟩ := opened
      rfl
  next => cases opened

/-- A bundle of at most one record is sorted. -/
theorem sorted_of_single (single : bundle.count ≤ 1) : bundle.Sorted := by
  intro bucket lt i j _ le jLt
  have lastLe : bundle.first (bucket + 1) ≤ bundle.count := first_le_count lt
  have same : i = j := by omega
  rw [same]

/-- A file of one record, the first of the first bucket. -/
def singleFile (lat lon : UInt8 × UInt8) : List UInt8 :=
  magic ++ [1, 4, 7, 234, 9, 0, 0, 0, 1, 0, 0, 0] ++ [0, 0, 0, 0] ++
    (List.replicate 256 [0, 0, 0, 1]).flatten ++ [0, 0, 0, lat.1, lat.2, lon.1, lon.2]

/-- A record at the origin of the map, nearly. -/
def originBundle : GeoBundle := (open_ (singleFile (0, 1) (0, 1))).get (by decide +kernel)

/-- A record whose longitude is none. -/
def edgeBundle : GeoBundle := (open_ (singleFile (0, 0) (128, 0))).get (by decide +kernel)

def firstAddress : InternetAddress := ⟨.IPv4, [0, 0, 0, 0], rfl⟩

end GeoBundle

end ServerBox.Geo
