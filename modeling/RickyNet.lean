import RickyNet.Wire.Agreement
import RickyNet.Core.NoEof
import RickyNet.Link.Upload
import RickyNet.Link.Download
import RickyNet.Win.Exit
import RickyNet.Win.OneWorker
import RickyNet.Win.Dial
import RickyNet.Win.Install
import RickyNet.Lib.LongestPrefix
import RickyNet.Win.Forwarding
import RickyNet.Win.Recovery
import RickyNet.Core.Lossless
import RickyNet.Link.Counters
import RickyNet.Win.Handshake
import RickyNet.Core.Lifecycle
import RickyNet.Core.OneListener
import RickyNet.Core.Ping
import RickyNet.Core.UdpRelay
import RickyNet.Core.Toggle
import RickyNet.Wire.Memory
import RickyNet.Core.Heartbeat
import RickyNet.Core.Logger
import RickyNet.Ios.ClearLog
import RickyNet.Ios.Polling
import RickyNet.Lib.CommandLine
import RickyNet.Win.MuxFrames
import RickyNet.Win.Options
import RickyNet.Win.Relaunch
import RickyNet.Win.Unblock
import RickyNet.Core.Returns
import RickyNet.Link.Drains
import RickyNet.Win.Disconnect
import RickyNet.Ios.LogPipeline
import RickyNet.Ios.LogFile
import RickyNet.Win.Logging
import RickyNet.Ios.KeepAlive
import RickyNet.Win.Headless
import RickyNet.Win.Reconnect
import RickyNet.Core.Egress
import RickyNet.Core.Serve
import RickyNet.Win.Quit
import RickyNet.Core.UdpDrains
