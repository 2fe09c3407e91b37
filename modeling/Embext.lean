import Embext.Proofs.Append
import Embext.Proofs.Arithmetic
import Embext.Proofs.ArrayFile
import Embext.Proofs.BlockPc
import Embext.Proofs.BlockSd
import Embext.Proofs.Cache
import Embext.Proofs.Copies
import Embext.Proofs.Create
import Embext.Proofs.Devices
import Embext.Proofs.DirtyFlag
import Embext.Proofs.Enumeration
import Embext.Proofs.ErrorCode
import Embext.Proofs.FailedSelection
import Embext.Proofs.Faults
import Embext.Proofs.FlushOpen
import Embext.Proofs.GroupTable
import Embext.Proofs.Growth
import Embext.Proofs.Hash
import Embext.Proofs.InodeRuns
import Embext.Proofs.IsolatedCalls
import Embext.Proofs.Layout
import Embext.Proofs.Lookup
import Embext.Proofs.NameSession
import Embext.Proofs.Partition
import Embext.Proofs.Paths
import Embext.Proofs.Persist
import Embext.Proofs.Position
import Embext.Proofs.Progress
import Embext.Proofs.Reopen
import Embext.Proofs.ScanEnds
import Embext.Proofs.Seek
import Embext.Proofs.Selection
import Embext.Proofs.Sparse
import Embext.Proofs.Superblock
import Embext.Proofs.TestEmbext
import Embext.Proofs.Transfers
import Embext.Proofs.Truncate
import Embext.Proofs.TwoHandles
import Embext.Proofs.Writing
