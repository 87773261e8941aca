import IotDrive.Framing
import IotDrive.ReplyStream
import IotDrive.Lockstep
import IotDrive.WriteErrors
import IotDrive.AckSafety
import IotDrive.WriteAcks
import IotDrive.Mirror
import IotDrive.Restart
import IotDrive.RequestSocket
import IotDrive.ResponseSocket
import IotDrive.SchedulerRuns
import IotDrive.AI
import IotDrive.Workers
import IotDrive.WatchList
import IotDrive.PoolPause
import IotDrive.Plugins
import IotDrive.Dispatcher
import IotDrive.Corruption
import IotDrive.MessageLayout
import IotDrive.Evaluations
import IotDrive.MissCounters
import IotDrive.DeviceRange
import IotDrive.FDListen
import IotDrive.PoolResume
import IotDrive.PoolTasks
import IotDrive.PauseReturns
import IotDrive.Notify
import IotDrive.Comparator
import IotDrive.Monitor
import IotDrive.StorageCluster
import IotDrive.Durability
import IotDrive.WireCluster
import IotDrive.SerialCommands
import IotDrive.Drive
import IotDrive.WireDrive
import IotDrive.Buse
import IotDrive.BlockDevice
import IotDrive.Library.BigEndian
import IotDrive.Library.AtomicObject
import IotDrive.Library.Mutex
import IotDrive.WaitableQueue
import IotDrive.QueueAtomicity
import IotDrive.QueueWakeups
import IotDrive.Singleton
import IotDrive.Logger
import IotDrive.LoggerStops
