import ThePipe.Client.Main
import ThePipe.ClientCtl.ClientApplicationInfo
import ThePipe.ClientCtl.StartupConfig
import ThePipe.Host.ClientProcessRepository
import ThePipe.Host.LoadedClient
import ThePipe.Host.ServerActivityHandler
import ThePipe.JsonLog.Channel
import ThePipe.JsonLog.LiveLog
import ThePipe.JsonLog.LogPipe
import ThePipe.JsonLog.OneBatch
import ThePipe.JsonLog.SharedWriter
import ThePipe.JsonLog.TimeStamp
import ThePipe.Log.Context
import ThePipe.Log.Mutex
import ThePipe.Log.Progress
import ThePipe.OsServices.IoMultiplexer.AddOutcome
import ThePipe.OsServices.IoMultiplexer.DispatchBatch
import ThePipe.OsServices.IoMultiplexer.Lifetime
import ThePipe.OsServices.IoMultiplexer.ListeningStatus
import ThePipe.OsServices.Ipc.Sockets
import ThePipe.OsServices.ProcMgmt.Descriptors
import ThePipe.OsServices.ProcMgmt.Handshake
import ThePipe.OsServices.ProcMgmt.PidfdOwner
import ThePipe.OsServices.ProcMgmt.ProgramTable
import ThePipe.OsServices.ProcMgmt.Progress
import ThePipe.OsServices.ProcMgmt.Redirect
import ThePipe.OsServices.Signals
import ThePipe.Utils.Gaps
import ThePipe.Utils.StructInfo
