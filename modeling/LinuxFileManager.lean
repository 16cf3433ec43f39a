import LinuxFileManager.Client.Blocks
import LinuxFileManager.Client.Conversation
import LinuxFileManager.Client.Encoder
import LinuxFileManager.FileManager.Copy
import LinuxFileManager.FileManager.DirList
import LinuxFileManager.FileManager.Mkdir
import LinuxFileManager.Gateway.Acceptance
import LinuxFileManager.Gateway.Accounting
import LinuxFileManager.Gateway.CheckSweep
import LinuxFileManager.Gateway.CheckTable
import LinuxFileManager.Gateway.Failures
import LinuxFileManager.Gateway.PartialSends
import LinuxFileManager.Gateway.PingPong
import LinuxFileManager.Gateway.Pointers
import LinuxFileManager.Gateway.RecvSpace
import LinuxFileManager.Gateway.Replies
import LinuxFileManager.Gateway.SendResponse
import LinuxFileManager.Gpio.Release
import LinuxFileManager.Gpio.Verify
import LinuxFileManager.Log.AtMostOnce
import LinuxFileManager.Log.BadLines
import LinuxFileManager.Log.LogDir
import LinuxFileManager.Log.Rotation
import LinuxFileManager.Log.RoundTrip
import LinuxFileManager.Menu.Store
import LinuxFileManager.Protocol.Corruption
import LinuxFileManager.ThreadPool.Completion
import LinuxFileManager.ThreadPool.Counters
import LinuxFileManager.ThreadPool.Shutdown
import LinuxFileManager.ThreadPool.Sizes
import LinuxFileManager.ThreadPool.Wakeup
