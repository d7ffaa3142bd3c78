import LinuxProgramming.SharedMemory.Transfer
import LinuxProgramming.BinaryTree.Add
import LinuxProgramming.BinaryTree.Delete
import LinuxProgramming.BinaryTree.Locks
import LinuxProgramming.Files.GetcwdLinks
import LinuxProgramming.Files.GetcwdErrors
import LinuxProgramming.Files.NftwStop
import LinuxProgramming.Files.NftwUnreadable
import LinuxProgramming.Files.NftwAstray
import LinuxProgramming.Files.NftwErrors
import LinuxProgramming.Files.RealpathCorrect
import LinuxProgramming.Files.RealpathEnds
import LinuxProgramming.Files.RealpathBounds
import LinuxProgramming.Files.PartPath
import LinuxProgramming.SharedMemory.Shutdown
import LinuxProgramming.Sockets.SeqnumServer
import LinuxProgramming.Fifo.Server
import LinuxProgramming.Messages.SelectPipe
import LinuxProgramming.Messages.SeqServer
import LinuxProgramming.Messages.EndMarker
import LinuxProgramming.Processes.StatusFile
import LinuxProgramming.Processes.SpecialFile
import LinuxProgramming.Files.DirnameBasename
import LinuxProgramming.Files.TailBlocks
import LinuxProgramming.Files.ScatterGather
import LinuxProgramming.Allocator.SmallRequests
import LinuxProgramming.Allocator.Contents
import LinuxProgramming.Allocator.Extending
import LinuxProgramming.Sockets.InetSockets
import LinuxProgramming.Sockets.SendfileOffset
import LinuxProgramming.Sockets.SendfileResult
import LinuxProgramming.Sockets.ShellServer
import LinuxProgramming.Sockets.TcpUdpEcho
import LinuxProgramming.Terminals.PtyFork
import LinuxProgramming.Terminals.Getpass
import LinuxProgramming.Files.Copy
import LinuxProgramming.Files.Chattr
import LinuxProgramming.Files.Dup2
import LinuxProgramming.Files.Getfacl
import LinuxProgramming.Environment.Unsetenv
import LinuxProgramming.Threads.OneTimeInit
import LinuxProgramming.Sockets.EchoServer
import LinuxProgramming.Popen.Descriptors
import LinuxProgramming.Popen.Atomicity
import LinuxProgramming.Processes.ExeclpArguments
import LinuxProgramming.Processes.Douser
import LinuxProgramming.Processes.Initgroups
import LinuxProgramming.Processes.Getpwnam
import LinuxProgramming.Signals.SystemV
import LinuxProgramming.Signals.MySystem
import LinuxProgramming.Signals.SigSpeed
import LinuxProgramming.Signals.TimerText
import LinuxProgramming.Inotify.Coverage
import LinuxProgramming.Inotify.Events
import LinuxProgramming.Inotify.Following
import LinuxProgramming.Inotify.Unlinking
import LinuxProgramming.BinaryTree.Lookup
import LinuxProgramming.Sockets.ReadlineErrors
import LinuxProgramming.Allocator.Sessions
import LinuxProgramming.BinaryTree.Sessions
import LinuxProgramming.Files.TwoLocks
import LinuxProgramming.Threads.Increment
import LinuxProgramming.Files.AtomicAppend
import LinuxProgramming.Fifo.Clients
import LinuxProgramming.Sockets.Ucase
import LinuxProgramming.Files.RealpathGetcwd
import LinuxProgramming.Terminals.TelnetDeadlock
import LinuxProgramming.Sockets.StreamTransfer
