import GridApps.Transition.Runs
import GridApps.Transition.Destutter
import GridApps.Transition.Resumable
import GridApps.Numeral.Binary64
import GridApps.Numeral.Literal
import GridApps.Numeral.Shortest
import GridApps.Numeral.PyFloat
import GridApps.Numeral.Hex
import GridApps.Bytes.Struct
import GridApps.Bytes.Decimal
import GridApps.Json.Value
import GridApps.Json.Scanner
import GridApps.Json.ReadBack
import GridApps.Json.Dumps
import GridApps.Json.Repr
import GridApps.SkipList.Towers
import GridApps.HashTable.Buckets
import GridApps.Redis.SortedSet
import GridApps.Redis.Zskiplist
import GridApps.Redis.Dict
import GridApps.Redis.ZskiplistRange
import GridApps.Redis.ZsetCommands
import GridApps.Redis.ZsetReplies
import GridApps.Redis.Numbers
import GridApps.Redis.Networking
import GridApps.Redis.Requests
import GridApps.Redis.FormatCommand
import GridApps.Redis.ReplyReader
import GridApps.Redis.ReplyBuffer
import GridApps.Redis.Conversation
import GridApps.Kettle.GridMonitor
import GridApps.Kettle.OneLoop
import GridApps.Kettle.GridDisplay
import GridApps.Kettle.LifeCycle
import GridApps.Kettle.ChangeDetection
import GridApps.Kettle.Foundation
import GridApps.Kettle.Monitors
import GridApps.Kettle.CheckMonitors
import GridApps.Kettle.Alerts
import GridApps.Kettle.NotificationPanel
import GridApps.Kettle.AutoHide
import GridApps.Kettle.PanelHeight
import GridApps.Kettle.OnScreen
import GridApps.Kettle.SlideTime
import GridApps.Kettle.Settle
import GridApps.Kettle.DeviceToken
import GridApps.Kettle.Reminder
import GridApps.Webserver.FreqServe
import GridApps.Webserver.StoredReport
import GridApps.Webserver.FreqRead
import GridApps.Webserver.SerialReader
import GridApps.Webserver.PushFrame
import GridApps.Webserver.PushSender
import GridApps.Webserver.Reminders
import GridApps.Webserver.SenderRound
import GridApps.Webserver.FreqServeTest
import GridApps.Advice.TwoPaths
import GridApps.Advice.SameReading
import GridApps.Advice.TestServer
