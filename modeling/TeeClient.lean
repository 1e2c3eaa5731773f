import TeeClient.Client.Operation
import TeeClient.Client.OperationLaws
import TeeClient.Client.Reply
import TeeClient.Client.ReplyLaws
import TeeClient.Client.ConnectionLaws
import TeeClient.Daemon.HandOver
import TeeClient.Daemon.HandOverLaws
import TeeClient.Daemon.SignalsLaws
import TeeClient.Daemon.Operation
import TeeClient.Daemon.OperationLaws
import TeeClient.Daemon.OwnMemory
import TeeClient.Daemon.RawBytes
import TeeClient.Lib.Memory
import TeeClient.Lib.RefCount
import TeeClient.Lib.Resumption
import TeeClient.RoundTrip
import TeeClient.Tui.PanelLaws
import TeeClient.Tui.DaemonLaws
import TeeClient.Client.SharedMemory
import TeeClient.Correspondence
import TeeClient.CorrespondenceLaws
import TeeClient.Types
import TeeClient.Vendor.Bitmap
import TeeClient.Vendor.Operation
import TeeClient.Vendor.OperationLaws
import TeeClient.Vendor.SharedMemory
import TeeClient.Vendor.SharedMemoryLaws
import TeeClient.Vendor.World
import TeeClient.Vendor.Api
import TeeClient.Vendor.Lifetime
import TeeClient.Vendor.ApiLaws
import TeeClient.Vendor.ContextList
import TeeClient.Vendor.DriverTypes
import TeeClient.Lib.Paths
import TeeClient.Teecd.FsAgent
import TeeClient.Teecd.Confinement
import TeeClient.Lib.Ring
import TeeClient.Vendor.SessionList
import TeeClient.Vendor.SessionListLaws
import TeeClient.Daemon.Descriptors
import TeeClient.Daemon.DescriptorsLaws
import TeeClient.Daemon.Service
import TeeClient.Daemon.Authorisation
import TeeClient.Daemon.ServiceLaws
import TeeClient.Daemon.AddressLayout
import TeeClient.Daemon.AddressLayoutLaws
import TeeClient.Daemon.ProcData
import TeeClient.Daemon.Errands
import TeeClient.Daemon.Isolation
import TeeClient.Vendor.ObjectLifetime
import TeeClient.Vendor.ObjectLifetimeLaws
import TeeClient.Daemon.References
import TeeClient.Daemon.ReferencesLaws
import TeeClient.Daemon.Lifetimes
import TeeClient.Daemon.Charges
import TeeClient.Daemon.Tending
import TeeClient.Daemon.CaDeath
import TeeClient.Vendor.DriverErrors
import TeeClient.Validation
import TeeClient.Daemon.DecodeBounds
import TeeClient.Teecd.TransientStorage
import TeeClient.Teecd.DeleteAll
import TeeClient.Teecd.OpenFiles
import TeeClient.Teecd.OpenFilesLaws
import TeeClient.Lib.Parcel
import TeeClient.Marshal
import TeeClient.MarshalLaws
import TeeClient.Teecd.WorkLoop
import TeeClient.Teecd.WorkLoopLaws
import TeeClient.Vendor.AppLoad
import TeeClient.Vendor.AppLoadLaws
import TeeClient.Tlogcat.RotationRuns
import TeeClient.Lib.RotatingLog
import TeeClient.Tlogcat.LogBuffer
import TeeClient.Tlogcat.TagList
import TeeClient.Teecd.DiskUsage
import TeeClient.Authentication.NativeCert
import TeeClient.Authentication.HapCert
import TeeClient.Teecd.JoinBounds
import TeeClient.Teecd.CopyFile
import TeeClient.Lib.FileTree
import TeeClient.Teecd.UnlinkRecursive
import TeeClient.Teecd.LoadDynamic
import TeeClient.Teecd.LoginLaws
import TeeClient.Teecd.LoadBoundaries
import TeeClient.Tlogcat.LogTag
import TeeClient.Lib.Tar
import TeeClient.Lib.Base64
import TeeClient.Tlogcat.TarZip
