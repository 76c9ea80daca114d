import EspMesh.Library.ByteMem
import EspMesh.Library.StepRuns
import EspMesh.Library.CopyQueue
import EspMesh.Library.Framing
import EspMesh.Library.NulRecords
import EspMesh.Library.LineFile
import EspMesh.Library.BitArray
import EspMesh.Library.PrefixCode
import EspMesh.Library.NorFlash
import EspMesh.Library.Blocks
import EspMesh.Library.Worklist
import EspMesh.Library.WhileLoop
import EspMesh.Library.LeadsTo
import EspMesh.Library.LinkedCells
import EspMesh.Library.OrderedMap
import EspMesh.Library.LengthParts
import EspMesh.Model.Common
import EspMesh.Model.NodeDevList
import EspMesh.Model.NodeDevHeap
import EspMesh.Model.TcpClientRead
import EspMesh.Model.RootSend
import EspMesh.Model.OtaTask
import EspMesh.Model.RootCommand
import EspMesh.Model.RootImage
import EspMesh.Model.RootMeshRead
import EspMesh.Model.NodeTask
import EspMesh.Model.PicLoop
import EspMesh.Model.MupgradeRoot
import EspMesh.Model.MupgradeNode
import EspMesh.Model.AppSpiffs
import EspMesh.Model.EventLoop
import EspMesh.Model.FirmwareDownload
import EspMesh.Model.UpgradeCalls
import EspMesh.Model.FeedDog
import EspMesh.Proof.RootFrame
import EspMesh.Proof.RootStep
import EspMesh.Proof.PhotoFrame
import EspMesh.Proof.PhotoArrival
import EspMesh.Proof.NodePhoto
import EspMesh.Proof.PhotoForward
import EspMesh.Proof.PhotoCursor
import EspMesh.Proof.PhotoSender
import EspMesh.Proof.PhotoBlock
import EspMesh.Proof.OtaPause
import EspMesh.Proof.Registration
import EspMesh.Proof.NodeRegistry
import EspMesh.Proof.PingRegistration
import EspMesh.Proof.Distribution
import EspMesh.Proof.FirmwareSuccess
import EspMesh.Proof.FirmwarePackets
import EspMesh.Proof.StatusRound
import EspMesh.Proof.Reassembly
import EspMesh.Proof.TcpFraming
import EspMesh.Proof.CommandQueue
import EspMesh.Proof.ConnectionEnd
import EspMesh.Proof.ConnectionStart
import EspMesh.Proof.ConnectionRegister
import EspMesh.Proof.ReplyFormat
import EspMesh.Proof.ConfigFile
import EspMesh.Proof.ConfigCrash
import EspMesh.Proof.FailedStart
import EspMesh.Proof.SavedRecord
import EspMesh.Proof.Resume
import EspMesh.Proof.NodeMessage
import EspMesh.Proof.FlashErrors
import EspMesh.Proof.CompleteImage
import EspMesh.Proof.ProgressReport
import EspMesh.Proof.BootSwitch
import EspMesh.Proof.NodeBounds
import EspMesh.Proof.PartitionPointer
import EspMesh.Proof.RoleTask
import EspMesh.Proof.RestartList
import EspMesh.Proof.OtaDest
import EspMesh.Proof.ForwardedCommand
import EspMesh.Proof.PacketStrings
import EspMesh.Proof.OfflineReport
import EspMesh.Proof.PhotoStream
import EspMesh.Proof.ConfigReadBack
import EspMesh.Proof.OtaDownload
import EspMesh.Proof.FeedDog
import EspMesh.Proof.AddressRemoval
import EspMesh.Proof.OtaResult
import EspMesh.Proof.CameraFrames
import EspMesh.Proof.FirmwareCheck
import EspMesh.Proof.VersionFallback
import EspMesh.Proof.StatusPage
import EspMesh.Proof.SendReturns
import EspMesh.Proof.CameraUsers
import EspMesh.Proof.CameraImage
import EspMesh.Proof.ToJpg
import EspMesh.Proof.MjpegStream
