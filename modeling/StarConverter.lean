import StarConverter.Base.Checked
import StarConverter.Base.Bytes
import StarConverter.Base.Digests
import StarConverter.Base.Spans
import StarConverter.Base.Patch
import StarConverter.Base.Prog
import StarConverter.Base.Medium
import StarConverter.Hashing
import StarConverter.Capsule.Header
import StarConverter.Capsule.Scan
import StarConverter.Capsule.Claims
import StarConverter.Capsule.Decide
import StarConverter.Capsule.Walk
import StarConverter.Capsule.Append
import StarConverter.Capsule.RoundTrip
import StarConverter.Capsule.Redundancy
import StarConverter.Capsule.Accepted
import StarConverter.Capsule.TornTail
import StarConverter.Extent
import StarConverter.Object
import StarConverter.Geometry.Solver
import StarConverter.Geometry.FreeSpace
import StarConverter.Geometry.Soundness
import StarConverter.Geometry.Relocate
import StarConverter.Geometry.Materialize
import StarConverter.Geometry.Seal
import StarConverter.World
import StarConverter.Capsule.Store
import StarConverter.Capsule.Reconcile
import StarConverter.Executor
import StarConverter.Relocation
import StarConverter.Overlay
import StarConverter.Recovery
import StarConverter.Conversion.Draft
import StarConverter.Conversion.Digest
import StarConverter.Conversion.Prepared
import StarConverter.Base.Codec
import StarConverter.Conversion.EnvelopeState
import StarConverter.Conversion.Envelope
import StarConverter.Conversion.EnvelopeRoundTrip
import StarConverter.Conversion.Checkpoint
import StarConverter.Capsule.Policy
import StarConverter.Conversion.Sealed
import StarConverter.Conversion.Restart
import StarConverter.Conversion.Payload
import StarConverter.Rollback
import StarConverter.Image
import StarConverter.Base.Signed
import StarConverter.Base.Coalesce
import StarConverter.Base.Fields
import StarConverter.Ntfs.Runs
import StarConverter.Ntfs.BadClus
import StarConverter.Ntfs.Runlist
import StarConverter.Ntfs.Attribute
import StarConverter.Ntfs.DataFragments
import StarConverter.Ntfs.Record
import StarConverter.Ntfs.RecordImage
import StarConverter.Ntfs.Packing
import StarConverter.Exfat.Allocation
import StarConverter.Exfat.Stream
import StarConverter.Exfat.Directory
import StarConverter.Exfat.Upcase
import StarConverter.Exfat.Discovery
import StarConverter.Ntfs.EncodedAttribute
import StarConverter.Ntfs.AttributeRows
import StarConverter.Ntfs.PackingPlan
import StarConverter.Ntfs.ObjectRecords
import StarConverter.Ntfs.PlanShape
import StarConverter.Ntfs.RecordCount
import StarConverter.Ntfs.PackingSound
import StarConverter.Base.BlockTree
import StarConverter.Ntfs.Index
import StarConverter.Ntfs.IndexSerialize
import StarConverter.Ntfs.IndexCollation
import StarConverter.Ntfs.IndexNode
import StarConverter.Base.Lz77
import StarConverter.Ntfs.Lznt1
import StarConverter.Ntfs.Lznt1Decode
import StarConverter.Base.Canonical
import StarConverter.RecoveryCodec
import StarConverter.Base.Panics
import StarConverter.Capsule.PanicFree
import StarConverter.Geometry.Fragmented
import StarConverter.Preimage
import StarConverter.Phase
import StarConverter.Export.Preview
import StarConverter.Faults
import StarConverter.Retry
import StarConverter.Conversion.EnvelopeCanonical
import StarConverter.Verify.Paths
import StarConverter.Verify.Content
import StarConverter.Verify.Manifest
import StarConverter.Verify.Equivalence
import StarConverter.Export.Refinement
import StarConverter.OverlayView
import StarConverter.SourceView
import StarConverter.Conversion.ActivationBytes
import StarConverter.Base.Bits
import StarConverter.Ntfs.Bitmap
import StarConverter.Ntfs.Reconcile
import StarConverter.Base.DepthFirst
import StarConverter.Namespace
import StarConverter.Base.Calendar
import StarConverter.Exfat.Timestamps
import StarConverter.CrossFormat.Timestamps
import StarConverter.Base.Walk
import StarConverter.Exfat.FatChain
import StarConverter.Base.Decides
import StarConverter.Ntfs.SecurityDescriptor
import StarConverter.Ntfs.SdsStream
import StarConverter.Ntfs.SdsLayout
import StarConverter.Ntfs.UnitReference
import StarConverter.Exfat.DirectoryScan
import StarConverter.CrossFormat.CaseCollisions
import StarConverter.Exfat.UpcaseCodec
import StarConverter.Exfat.BootRegion
import StarConverter.Exfat.DestinationGeometry
import StarConverter.Base.Undo
import StarConverter.Transaction
import StarConverter.Transaction.CrashSafety
import StarConverter.Transaction.Observation
import StarConverter.Transaction.Activation
import StarConverter.Transaction.RelocationCopies
import StarConverter.Base.Shift
import StarConverter.Exfat.FileSet
import StarConverter.Exfat.ObjectLayout
import StarConverter.Exfat.DirectoryBuild
import StarConverter.Exfat.DirectoryReadback
import StarConverter.Base.Slots
import StarConverter.Exfat.ClusterAllocation
import StarConverter.Exfat.PayloadMap
import StarConverter.Base.BreadthFirst
import StarConverter.Exfat.AllocationBuild
import StarConverter.Exfat.DirectoryPlacement
import StarConverter.Exfat.Draft
import StarConverter.Exfat.Serialize
import StarConverter.Exfat.VolumeWrites
import StarConverter.Exfat.FormatSafety
import StarConverter.Exfat.WriteRoom
import StarConverter.Exfat.FormatTables
import StarConverter.Exfat.FormatBoot
import StarConverter.Exfat.FormatPayload
import StarConverter.Exfat.ReadablePlaces
import StarConverter.Exfat.FormatDirectories
