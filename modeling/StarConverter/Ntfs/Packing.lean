import Mathlib.Data.Prod.Lex
import Mathlib.Data.List.Lex
import StarConverter.Ntfs.RecordImage
import StarConverter.Overlay

/-!
# Packing attributes into records

Attributes that do not fit into one record are spread over a base record, which keeps an attribute
list, and extension records. The plan (`FileAttributeGroups`) says by index which attribute goes
where; the list names for every attribute the record that holds it. Files and directories plan in
their own ways and share the rest.
-/

namespace StarConverter

open Base

namespace Ntfs

def maxFileExtensionRecords : ℕ := 4096
def attributeListEntryHeader : ℕ := 26

/-- Clusters at the end of the volume that hold a value too large for a record. -/
structure NamedResidentOverflow where
  lcn : ℕ
  clusters : ℕ
  logicalBytes : ℕ
  deriving DecidableEq

structure FileAttributeGroups where
  basePayload : List ℕ
  extensions : List (List ℕ)
  listInstance : Option ℕ
  listRun : Option NamedResidentOverflow
  splitAttributeList : Bool
  deriving DecidableEq

structure PackedFileRecords where
  base : Bytes
  extensions : List Bytes
  attributeListWrite : Option OverlayWrite
  deriving DecidableEq

/-! ## Fields of an encoded attribute -/

def attributeTypeOf (attr : Bytes) : Except NtfsSerializeError ℕ := do
  ensure (16 ≤ attr.length) .arithmeticOverflow
  pure (leAt 4 attr 0)

def attributeInstance (attr : Bytes) : Except NtfsSerializeError ℕ := do
  ensure (16 ≤ attr.length) .arithmeticOverflow
  pure (leAt 2 attr 14)

/-- The units of a name, if the attribute has one. -/
def nameUnits (attr : Bytes) (nameLen : ℕ) : Except NtfsSerializeError (List UInt16) :=
  if nameLen = 0 then .ok []
  else do
    let nameOffset := leAt 2 attr 10
    let nameBytes ← orErr (checkedMul nameLen 2) .arithmeticOverflow
    let stop ← orErr (checkedAdd nameOffset nameBytes) .arithmeticOverflow
    ensure (stop ≤ attr.length) .arithmeticOverflow
    pure ((List.range nameLen).map fun i => UInt16.ofNat (leAt 2 attr (nameOffset + i * 2)))

def attributeNameUnits (attr : Bytes) : Except NtfsSerializeError (List UInt16) := do
  ensure (16 ≤ attr.length) .arithmeticOverflow
  nameUnits attr (attr.getD 9 0).toNat

/-- The first virtual cluster of a nonresident attribute; a negative one is refused. -/
def storedLowestVcn (attr : Bytes) : Except NtfsSerializeError ℕ := do
  ensure (24 ≤ attr.length) .arithmeticOverflow
  let signed := signedValue (sliceAt attr 16 8)
  ensure (0 ≤ signed) .arithmeticOverflow
  pure signed.toNat

def attributeLowestVcn (attr : Bytes) : Except NtfsSerializeError ℕ := do
  ensure (16 ≤ attr.length) .arithmeticOverflow
  if attr.getD 8 0 = 0 then pure 0 else storedLowestVcn attr

/-- The largest instance of the attributes. -/
def maxInstance : ℕ → List Bytes → Except NtfsSerializeError ℕ
  | maxId, [] => pure maxId
  | maxId, attr :: rest => do
    let id ← attributeInstance attr
    maxInstance (max maxId id) rest

def nextAttributeInstance (attributes : List Bytes) : Except NtfsSerializeError ℕ := do
  let maxId ← maxInstance 0 attributes
  orErr (checkedAdd16 maxId 1) .arithmeticOverflow

/-- The length of the list entry of an attribute with a name of so many units. -/
def entryLength (nameLen : ℕ) : Except NtfsSerializeError ℕ := do
  let nameBytes ← orErr (checkedMul nameLen 2) .arithmeticOverflow
  let length ← orErr (checkedAdd attributeListEntryHeader nameBytes) .arithmeticOverflow
  pure (alignEight length)

def attributeListValueLenFrom : ℕ → List Bytes → Except NtfsSerializeError ℕ
  | total, [] => pure total
  | total, attr :: rest => do
    let name ← attributeNameUnits attr
    let length ← entryLength name.length
    let total ← orErr (checkedAdd total length) .arithmeticOverflow
    attributeListValueLenFrom total rest

def attributeListValueLen (attributes : List Bytes) : Except NtfsSerializeError ℕ :=
  attributeListValueLenFrom 0 attributes

def residentUnnamedAttributeLen (valueLen : ℕ) : Except NtfsSerializeError ℕ := do
  let length ← orErr (checkedAdd 24 valueLen) .arithmeticOverflow
  pure (alignEight length)

/-! ## The attribute list's own attribute -/

def nonresidentAttribute (attributeType : ℕ) (run : ℕ × ℕ)
    (logical initialized allocated id : ℕ) : Except NtfsSerializeError Bytes := do
  let pairs ← orErr (encodeRuns [(some run.1, run.2)]) .arithmeticOverflow
  nonresidentAttributeFromPairs attributeType pairs 0 run.2 logical initialized allocated id false

/-- The list maps all its clusters, or only the first when a continuation maps the rest. -/
def firstNonresidentAttributeList (run : NamedResidentOverflow) (cluster id : ℕ)
    (splitFirstExtent : Bool) (logical : ℕ) : Except NtfsSerializeError Bytes := do
  let allocated ← orErr (checkedMul run.clusters cluster) .arithmeticOverflow
  match splitFirstExtent with
  | true => do
    ensure (2 ≤ run.clusters) .destinationLayoutChanged
    let pairs ← orErr (encodeRuns [(some run.lcn, 1)]) .arithmeticOverflow
    nonresidentAttributeFromPairs attributeList pairs 0 1 logical logical allocated id false
  | false =>
    nonresidentAttribute attributeList (run.lcn, run.clusters) logical logical allocated id

def nonresidentAttributeListLen (run : NamedResidentOverflow) (cluster id : ℕ)
    (splitFirstExtent : Bool) : Except NtfsSerializeError ℕ := do
  let attr ← firstNonresidentAttributeList run cluster id splitFirstExtent run.logicalBytes
  pure attr.length

/-- The write of a value to its clusters, filled up with zeros. -/
def destClusterPayloadWrite (run : NamedResidentOverflow) (bytes : Bytes) (cluster : ℕ) :
    Except NtfsSerializeError OverlayWrite := do
  let allocated ← orErr (checkedMul run.clusters cluster) .arithmeticOverflow
  ensure (bytes.length = run.logicalBytes) .destinationLayoutChanged
  let offset ← orErr (checkedMul run.lcn cluster) .arithmeticOverflow
  pure ⟨offset, bytes.take allocated ++ zeros (allocated - bytes.length)⟩

def emitAttributeList (listInstance : ℕ) (listValue : Bytes) (listRun : Option NamedResidentOverflow)
    (cluster : ℕ) (splitFirstExtent : Bool) :
    Except NtfsSerializeError (Bytes × Option OverlayWrite) :=
  match listRun with
  | none => do
    ensure (splitFirstExtent = false) .destinationLayoutChanged
    let attr ← residentAttribute attributeList none listInstance listValue
    pure (attr, none)
  | some run => do
    ensure (listValue.length = run.logicalBytes) .destinationLayoutChanged
    let attr ← firstNonresidentAttributeList run cluster listInstance splitFirstExtent
      listValue.length
    let write ← destClusterPayloadWrite run listValue cluster
    pure (attr, some write)

/-! ## Planning -/

/-- Packs attributes into records in order: a record is closed when the next one does not fit. -/
def packLoop (attributes : List Bytes) (recordNumber : ℕ) :
    List ℕ → List (List ℕ) → List ℕ → List ℕ → Except NtfsSerializeError (List (List ℕ))
  | [], groups, current, _ => pure (if current = [] then groups else groups ++ [current])
  | index :: rest, groups, current, currentLengths => do
    let length ← orErr (attributes[index]?.map List.length) .arithmeticOverflow
    let fits ← recordLengthsFit (currentLengths ++ [length])
    if fits then
      packLoop attributes recordNumber rest groups (current ++ [index]) (currentLengths ++ [length])
    else do
      ensure (current ≠ []) (.recordOverflow recordNumber)
      let alone ← recordLengthsFit [length]
      ensure (alone = true) (.recordOverflow recordNumber)
      packLoop attributes recordNumber rest (groups ++ [current]) [index] [length]

def packIndicesIntoRecords (indices : List ℕ) (attributes : List Bytes) (recordNumber : ℕ) :
    Except NtfsSerializeError (List (List ℕ)) := do
  let groups ← packLoop attributes recordNumber indices [] [] []
  ensure (groups.length ≤ maxFileExtensionRecords) (.recordOverflow recordNumber)
  pure groups

/-- Attributes by type and, within a type, in their own order. -/
def typeKey (attributes : List Bytes) (index : ℕ) : ℕ ×ₗ ℕ :=
  toLex (match attributeTypeOf (attributes.getD index []) with
    | .ok attributeType => attributeType
    | .error _ => 2 ^ 32 - 1, index)

/-- Fills the base record: what does not fit is spilled, what comes later may still fit. -/
def fillBase (attributes : List Bytes) :
    List ℕ → List ℕ → List ℕ → List ℕ → Except NtfsSerializeError (List ℕ × List ℕ)
  | [], _, basePayload, spilled => pure (basePayload, spilled)
  | index :: rest, baseLengths, basePayload, spilled => do
    let trial := baseLengths ++ [(attributes.getD index []).length]
    let fits ← recordLengthsFit trial
    if fits then fillBase attributes rest trial (basePayload ++ [index]) spilled
    else fillBase attributes rest baseLengths basePayload (spilled ++ [index])

/-- The length of the list's attribute and, when it is not resident, its clusters. -/
def chooseListStorage (recordNumber : ℕ) (listRun : Option NamedResidentOverflow)
    (cluster listInstance residentLen : ℕ) (residentFits : Bool) :
    Except NtfsSerializeError (ℕ × Option NamedResidentOverflow) :=
  match residentFits, listRun with
  | true, some _ => .error .destinationLayoutChanged
  | true, none => .ok (residentLen, none)
  | false, none => .error (.recordOverflow recordNumber)
  | false, some run => do
    let length ← nonresidentAttributeListLen run cluster listInstance (2 ≤ run.clusters)
    pure (length, some run)

def isSplit (listRun : Option NamedResidentOverflow) : Bool := listRun.any (2 ≤ ·.clusters)

/-- The groups of a file whose attributes do not fit into one record. -/
def planSpilledFile (recordNumber : ℕ) (first : Bytes) (attributes : List Bytes)
    (listRun : Option NamedResidentOverflow) (cluster : ℕ) :
    Except NtfsSerializeError FileAttributeGroups := do
  let listInstance ← nextAttributeInstance attributes
  let listValueLen ← attributeListValueLen attributes
  let residentLen ← residentUnnamedAttributeLen listValueLen
  let residentFits ← recordLengthsFit [first.length, residentLen]
  let storage ← chooseListStorage recordNumber listRun cluster listInstance residentLen residentFits
  let listFits ← recordLengthsFit [first.length, storage.1]
  ensure (listFits = true) (.recordOverflow recordNumber)
  let remaining := sortByKey (typeKey attributes) (List.range' 1 (attributes.length - 1))
  let filled ← fillBase attributes remaining [first.length, storage.1] [0] []
  let extensions ← packLoop attributes recordNumber filled.2 [] [] []
  ensure (extensions ≠ [] ∧ extensions.length ≤ maxFileExtensionRecords)
    (.recordOverflow recordNumber)
  pure ⟨filled.1, extensions, some listInstance, storage.2, isSplit storage.2⟩

def planFileAttributeGroups (recordNumber : ℕ) (attributes : List Bytes)
    (listRun : Option NamedResidentOverflow) (cluster : ℕ) :
    Except NtfsSerializeError FileAttributeGroups :=
  match attributes with
  | [] => .error (.recordOverflow recordNumber)
  | first :: _ => do
    let firstType ← attributeTypeOf first
    ensure (firstType = standardInformation) (.recordOverflow recordNumber)
    let fits ← recordLengthsFit (attributes.map List.length)
    match fits with
    | true => do
      ensure (listRun = none) .destinationLayoutChanged
      pure ⟨List.range attributes.length, [], none, none, false⟩
    | false => planSpilledFile recordNumber first attributes listRun cluster

/-- The indices a directory keeps in its base record, and those of its names. -/
def partitionDirectory (recordNumber : ℕ) :
    ℕ → List Bytes → Except NtfsSerializeError (List ℕ × List ℕ)
  | _, [] => pure ([], [])
  | index, attr :: rest => do
    let attributeType ← attributeTypeOf attr
    ensure (attributeType = fileName ∨ attributeType ∈ [standardInformation, attributeList,
      securityDescriptor, indexRoot, indexAllocation, bitmap, reparsePoint])
      (.recordOverflow recordNumber)
    let more ← partitionDirectory recordNumber (index + 1) rest
    pure <| if attributeType = fileName then (more.1, index :: more.2)
      else (index :: more.1, more.2)

/-- The list of a directory is resident when the base record has room for it. -/
def chooseDirectoryList (recordNumber : ℕ) (listRun : Option NamedResidentOverflow)
    (cluster listInstance : ℕ) (baseLengths : List ℕ) (residentFits : Bool) :
    Except NtfsSerializeError (Option NamedResidentOverflow) :=
  match residentFits, listRun with
  | true, some _ => .error .destinationLayoutChanged
  | true, none => .ok none
  | false, none => .error (.recordOverflow recordNumber)
  | false, some run => do
    let length ← nonresidentAttributeListLen run cluster listInstance (2 ≤ run.clusters)
    let fits ← recordLengthsFit (length :: baseLengths)
    ensure (fits = true) (.recordOverflow recordNumber)
    pure (some run)

def planDirectoryAttributeGroups (recordNumber : ℕ) (attributes : List Bytes)
    (listRun : Option NamedResidentOverflow) (cluster : ℕ) :
    Except NtfsSerializeError FileAttributeGroups :=
  match attributes with
  | [] => .error (.recordOverflow recordNumber)
  | first :: _ => do
    let firstType ← attributeTypeOf first
    ensure (firstType = standardInformation) (.recordOverflow recordNumber)
    let parts ← partitionDirectory recordNumber 0 attributes
    ensure (parts.1.head? = some 0) (.recordOverflow recordNumber)
    let basePayload := parts.1.take 1 ++ sortByKey (typeKey attributes) (parts.1.drop 1)
    let listInstance ← nextAttributeInstance attributes
    let listValueLen ← attributeListValueLen attributes
    let residentLen ← residentUnnamedAttributeLen listValueLen
    let baseLengths := basePayload.map fun index => (attributes.getD index []).length
    let residentFits ← recordLengthsFit (residentLen :: baseLengths)
    let listRun ← chooseDirectoryList recordNumber listRun cluster listInstance baseLengths
      residentFits
    let extensions ← packIndicesIntoRecords parts.2 attributes recordNumber
    pure ⟨basePayload, extensions, some listInstance, listRun, isSplit listRun⟩

/-! ## The attribute list -/

/-- A row of the attribute list before it is encoded. -/
structure ListRow where
  attributeType : ℕ
  name : List UInt16
  lowestVcn : ℕ
  id : ℕ
  host : ℕ
  sequence : ℕ
  deriving DecidableEq

/-- The order of rows: type, name, first virtual cluster, instance. -/
def ListRow.key (row : ListRow) : ℕ ×ₗ (List ℕ ×ₗ (ℕ ×ₗ ℕ)) :=
  toLex (row.attributeType, toLex (row.name.map UInt16.toNat, toLex (row.lowestVcn, row.id)))

def encodeAttributeListEntry (attributeType : ℕ) (name : List UInt16)
    (lowestVcn recordNumber sequenceNumber id : ℕ) : Except NtfsSerializeError Bytes := do
  let length ← entryLength name.length
  ensure (length < 2 ^ 16) .arithmeticOverflow
  ensure (name.length < 2 ^ 8) .arithmeticOverflow
  pure <| applyAll
    ([put 4 0 attributeType, put 2 4 length, put 1 6 name.length] ++
      (if name = [] then [] else [put 1 7 attributeListEntryHeader]) ++
      [put 8 8 lowestVcn, put 8 16 (mftReferenceWithSequence recordNumber sequenceNumber),
        put 2 24 id] ++
      (if name = [] then [] else [⟨attributeListEntryHeader, utf16Bytes name⟩]))
    (zeros length)

/-- The record of the first group that contains an index. -/
def hostIn (index : ℕ) : List (List ℕ) → List ℕ → Except NtfsSerializeError ℕ
  | [], _ => .error .destinationLayoutChanged
  | group :: groups, numbers =>
    if index ∈ group then orErr numbers.head? .destinationLayoutChanged
    else hostIn index groups numbers.tail

def attributeHostRecord (index : ℕ) (groups : FileAttributeGroups) (baseRecord : ℕ)
    (extensionRecords : List ℕ) : Except NtfsSerializeError ℕ :=
  if index ∈ groups.basePayload then .ok baseRecord
  else hostIn index groups.extensions extensionRecords

/-- The row of an attribute held by a record. -/
def rowFor (attr : Bytes) (host : ℕ) : Except NtfsSerializeError ListRow := do
  let attributeType ← attributeTypeOf attr
  let name ← attributeNameUnits attr
  let lowestVcn ← attributeLowestVcn attr
  let id ← attributeInstance attr
  pure ⟨attributeType, name, lowestVcn, id, host, recordSequence host⟩

def listRows (groups : FileAttributeGroups) (baseRecord : ℕ) (extensionRecords : List ℕ) :
    ℕ → List Bytes → Except NtfsSerializeError (List ListRow)
  | _, [] => pure []
  | index, attr :: rest => do
    let host ← attributeHostRecord index groups baseRecord extensionRecords
    let row ← rowFor attr host
    let more ← listRows groups baseRecord extensionRecords (index + 1) rest
    pure (row :: more)

def encodeRows : List ListRow → Except NtfsSerializeError Bytes
  | [] => pure []
  | row :: rest => do
    let entry ← encodeAttributeListEntry row.attributeType row.name row.lowestVcn row.host
      row.sequence row.id
    let more ← encodeRows rest
    pure (entry ++ more)

def encodeAttributeListValue (attributes : List Bytes) (groups : FileAttributeGroups)
    (baseRecord : ℕ) (extensionRecords : List ℕ) : Except NtfsSerializeError Bytes := do
  let rows ← listRows groups baseRecord extensionRecords 0 attributes
  encodeRows (sortByKey ListRow.key rows)

/-! ## Records -/

def attributesFromIndices (attributes : List Bytes) (indices : List ℕ) : List Bytes :=
  indices.map fun index => attributes.getD index []

def packExtensions (recordNumber hardLinks : ℕ) (attributes : List Bytes) :
    List (List ℕ) → List ℕ → Except NtfsSerializeError (List Bytes)
  | indices :: groups, extensionNumber :: numbers => do
    let extension ← finishRecordWithSequence extensionNumber (recordSequence extensionNumber)
      fileRecordInUse hardLinks (attributesFromIndices attributes indices)
    let more ← packExtensions recordNumber hardLinks attributes groups numbers
    pure (withBaseReference recordNumber extension :: more)
  | _, _ => pure []

/-- The records of groups with an attribute list: the list stands behind the first attribute. -/
def packWithList (recordNumber flags hardLinks : ℕ) (attributes : List Bytes)
    (extensionRecords : List ℕ) (cluster : ℕ) (groups : FileAttributeGroups) (listInstance : ℕ)
    (baseError : NtfsSerializeError → NtfsSerializeError) :
    Except NtfsSerializeError PackedFileRecords := do
  let listValue ← encodeAttributeListValue attributes groups recordNumber extensionRecords
  let emitted ← emitAttributeList listInstance listValue groups.listRun cluster
    groups.splitAttributeList
  let baseAttributes := attributesFromIndices attributes (groups.basePayload.take 1) ++ [emitted.1] ++
    attributesFromIndices attributes (groups.basePayload.drop 1)
  let base ← (finishRecord recordNumber flags hardLinks baseAttributes).mapError baseError
  let extensions ← packExtensions recordNumber hardLinks attributes groups.extensions extensionRecords
  pure ⟨base, extensions, emitted.2⟩

def serializePackedFileRecords (recordNumber hardLinks : ℕ) (attributes : List Bytes)
    (extensionRecords : List ℕ) (listRun : Option NamedResidentOverflow) (cluster : ℕ) :
    Except NtfsSerializeError PackedFileRecords := do
  let groups ← planFileAttributeGroups recordNumber attributes listRun cluster
  ensure (groups.extensions.length = extensionRecords.length) .destinationLayoutChanged
  match groups.listInstance with
  | none => do
    let base ← finishRecord recordNumber fileRecordInUse hardLinks attributes
    pure ⟨base, [], none⟩
  | some listInstance =>
    packWithList recordNumber fileRecordInUse hardLinks attributes extensionRecords cluster groups
      listInstance id

/-- A record of a directory that overflows is reported as its index that overflows. -/
def asDirectoryIndexOverflow (object : ObjectId) : NtfsSerializeError → NtfsSerializeError
  | .recordOverflow _ => .directoryIndexOverflow object
  | other => other

def serializePackedDirectoryRecords (recordNumber : ℕ) (object : ObjectId) (hardLinks : ℕ)
    (attributes : List Bytes) (extensionRecords : List ℕ) (listRun : Option NamedResidentOverflow)
    (cluster : ℕ) : Except NtfsSerializeError PackedFileRecords := do
  let groups ← (planDirectoryAttributeGroups recordNumber attributes listRun cluster).mapError
    (asDirectoryIndexOverflow object)
  ensure (groups.extensions.length = extensionRecords.length) .destinationLayoutChanged
  let listInstance ← orErr groups.listInstance .destinationLayoutChanged
  packWithList recordNumber (fileRecordInUse + fileRecordDirectory) hardLinks attributes
    extensionRecords cluster groups listInstance (asDirectoryIndexOverflow object)

/-! ## Counting extension records beforehand -/

def fileExtensionRecordCount (recordNumber : ℕ) (attributes : List Bytes)
    (listRun : Option NamedResidentOverflow) (cluster : ℕ) : Except NtfsSerializeError ℕ := do
  let groups ← planFileAttributeGroups recordNumber attributes listRun cluster
  pure groups.extensions.length

/-- The count of a directory, from the attributes that stand before its index. -/
def directoryFileNameExtensionCount (recordNumber : ℕ) (prefixAttributes : List Bytes) :
    Except NtfsSerializeError ℕ :=
  if prefixAttributes.length < 2 then .ok 0
  else do
    let fileNames := prefixAttributes.drop 1
    let groups ← packIndicesIntoRecords (List.range fileNames.length) fileNames recordNumber
    pure groups.length

end Ntfs

end StarConverter
