import CppExperiment.Lib.Run
import CppExperiment.Lib.Turns
import CppExperiment.Lib.EraseSkip
import CppExperiment.Lib.SharedPtr
import CppExperiment.Lib.Ownership
import CppExperiment.Lib.Sweep
import CppExperiment.Lib.Civil
import CppExperiment.Lib.Memory
import CppExperiment.Lib.LittleEndian
import CppExperiment.Lib.Decimal
import CppExperiment.Lib.Scan
import CppExperiment.Lib.Base64
import CppExperiment.Lib.Fit
import CppExperiment.Lib.Words
import CppExperiment.Lib.Escape
import CppExperiment.Lib.LetterCode
import CppExperiment.Lib.Fields
import CppExperiment.Lib.Program
import CppExperiment.Lib.Split
import CppExperiment.Lib.Trim
import CppExperiment.Lib.Squeeze
import CppExperiment.Lib.Replace
import CppExperiment.Lib.StdString
import CppExperiment.Lib.PairText
import CppExperiment.Lib.Code
import CppExperiment.Pobo.Date
import CppExperiment.Pobo.Compare
import CppExperiment.Pobo.Runs
import CppExperiment.Pobo.Text
import CppExperiment.Pobo.CachePool
import CppExperiment.ConnPool.Pool
import CppExperiment.ConnPool.Check
import CppExperiment.ConnPool.Ownership
import CppExperiment.ConnPool.Runs
import CppExperiment.ConnPool.Lifo
import CppExperiment.ConnPool.Checked
import CppExperiment.ConnPool.Leaks
import CppExperiment.AsioClient.Client
import CppExperiment.AsioClient.Writes
import CppExperiment.AsioClient.Reads
import CppExperiment.AsioClient.Timer
import CppExperiment.STD.Base64
import CppExperiment.STD.Base64Encode
import CppExperiment.STD.Base64Decode
import CppExperiment.STD.Base64RoundTrip
import CppExperiment.STD.Base64Filter
import CppExperiment.STD.Zhuangyi
import CppExperiment.STD.Para
import CppExperiment.STD.ParaInt
import CppExperiment.STD.TranslateData
import CppExperiment.STD.ChangeStingBy
import CppExperiment.STD.UrlEncode
import CppExperiment.STD.Utf8Words
import CppExperiment.STD.TextType
import CppExperiment.STD.TextGroups
import CppExperiment.STD.Gbk
import CppExperiment.STD.TrimChar
import CppExperiment.STD.ReadColumn
import CppExperiment.StdAttri.Features
import CppExperiment.StdAttri.Utf16
import CppExperiment.STD.Days
import CppExperiment.STD.Dates
import CppExperiment.STD.OtherDay
import CppExperiment.StringFunc.Split
import CppExperiment.StringFunc.Replace
import CppExperiment.StringFunc.Chars
import CppExperiment.StringFunc.ReplaceByDelim
import CppExperiment.StringFunc.Ends
import CppExperiment.StringFunc.Escape
import CppExperiment.StringFunc.Strip
import CppExperiment.StringFunc.Fold
import CppExperiment.StringFunc.Affix
import CppExperiment.StringFunc.Pairs
import CppExperiment.StringFunc.Included
import CppExperiment.StringFunc.OneItem
import CppExperiment.STD.Copies
import CppExperiment.STD.GetValue
import CppExperiment.STD.TrimEnter
import CppExperiment.STD.FormatTime
import CppExperiment.STD.FormatDate
import CppExperiment.STD.Timestamps
import CppExperiment.BoostUse.Split
import CppExperiment.StdAttri.Splitters
import CppExperiment.StdAttri.DirTree
import CppExperiment.StdAttri.SpinLock
import CppExperiment.SyncBlockedClient.Client
import CppExperiment.SyncBlockedClient.Replies
import CppExperiment.SyncBlockedClient.Sockets
import CppExperiment.SyncBlockedClient.Exits
import CppExperiment.SyncBlockedClient.Buffer
import CppExperiment.TinyServer.Loop
import CppExperiment.TinyServer.Clients
import CppExperiment.TinyClient.Frames
import CppExperiment.ThreadBase.Lifecycle
import CppExperiment.MuduoServer.Service
import CppExperiment.MuduoServer.Connections
import CppExperiment.MuduoServer.MockServer
import CppExperiment.EchoClient.TalkToSvr
import CppExperiment.SString.OnlyMove
import CppExperiment.StdAttri.TaskQueue
import CppExperiment.CommContainer.StudentHash
import CppExperiment.CommContainer.TestRemove
import CppExperiment.StdStl.TestMemory
import CppExperiment.StdStl.WeakPtr
import CppExperiment.PoboTool.CheckCode
import CppExperiment.PoboTool.Lines
import CppExperiment.UFDataType.StringType
