import San2.Library.BigEndian
import San2.Library.CounterMode
import San2.Utils.CDataPack
import San2.Network.CCapsule
import San2.Crypto.AesCounter
import San2.Library.Framing
import San2.Stream.CIStreamRW
import San2.Tcp.TcpStreamRW
import San2.Rpc.CIRpcChannel
import San2.Library.Execution
import San2.Rpc.RpcConnection
import San2.Library.StopAndWait
import San2.Shell.StopWait
import San2.Shell.StopWaitLink
import San2.Crypto.HashInterface
import San2.Crypto.OsslMathImpl
import San2.Crypto.SrpAuthentication
import San2.Crypto.Datagram
import San2.Shell.MessageConstructor
import San2.Shell.Session
import San2.Shell.SessionRuns
import San2.Shell.ClientSession
import San2.Shell.ShellExchange
import San2.Library.NonceLog
import San2.Shell.NonceUse
import San2.Shell.SessionAnswers
import San2.Shell.MainLoop
import San2.Shell.StopWaitWindow
import San2.Library.BoundedFifo
import San2.Utils.CProducerConsumer
import San2.Node.CPortmap
import San2.Interfaces.CTcpInterface
import San2.Node.CNode
import San2.Shell.MessageBuffers
import San2.Interfaces.CCapsuleReceiver
import San2.Interfaces.CapsuleTransfer
import San2.Network.SocketReader
import San2.Tcp.TcpHelper
import San2.Cppl.BufferProcessor
import San2.Comm.TcpStreamReads
import San2.Shell.LastReply
import San2.Shell.NewClient
import San2.Shell.UsernameMessage
import San2.Shell.MessageRebuild
import San2.Shell.CipherBuffers
import San2.Crypto.DatagramBuffers
import San2.Crypto.SrpChallenges
import San2.Cppl.StreamReads
import San2.Cppl.StreamLines
import San2.Interfaces.RegisterPort
import San2.Api.CNodeConnector
import San2.Rpc.CRpcInvoker
import San2.Api.InterfaceAddresses
import San2.Rpc.SyncClient
import San2.Api.WaitForCapsule
import San2.Interfaces.SendCapsuleBuilds
import San2.Library.TwoTables
import San2.Rpc.Registration
import San2.Shell.ZeroReply
import San2.Shell.ClientReturns
import San2.Library.Numeral
import San2.Utils.Hex
import San2.Crypto.Conversion
import San2.Utils.Address
import San2.Utils.CStringUtils
import San2.Node.CIpcChannel
import San2.Node.LineParser
import San2.Node.Delivery
import San2.Library.LastWrite
import San2.Node.CapsuleCommands
import San2.Shell.ApplicationDatagram
import San2.Library.WhileLoop
import San2.Crypto.DerivedBytes
import San2.Crypto.InterleaveS
import San2.Utils.PackedIntegers
import San2.Library.TextLines
import San2.Library.FirstWrite
import San2.Shell.PasswordLoader
import San2.Utils.ConfigFile
import San2.Library.RoundCipher
import San2.Library.Rijndael
import San2.Crypto.AesStandard
import San2.Crypto.AesTables
import San2.Crypto.AesCrypt
import San2.Crypto.AesKey
import San2.Crypto.AesCipher
import San2.Library.StreamMachine
import San2.Crypto.AesModes
import San2.Library.LossyPipeline
import San2.Node.Station
import San2.Node.CapsuleNetwork
import San2.Node.CapsuleFlow
import San2.Library.MachineFamily
import San2.Shell.SessionIsolation
import San2.Shell.AuthenticatedRequests
import San2.Shell.ShellNetwork
import San2.Api.ServiceChannels
import San2.Node.Main
