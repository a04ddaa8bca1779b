import JabSimul.SlotAllocator
import JabSimul.WriteQueue
import JabSimul.Consistency
import JabSimul.Zombies
import JabSimul.TearDown
import JabSimul.LoginOrder
import JabSimul.RequestIds
import JabSimul.RosterAccounts
import JabSimul.PrivRoundTrip
import JabSimul.UserConnect
import JabSimul.PacketBooks
import JabSimul.PollFlags
import JabSimul.PatternLanguage
import JabSimul.PatternHistory
import JabSimul.PatternBounds
import JabSimul.Sendable
import JabSimul.StreamEnd
import JabSimul.EventBudget
import JabSimul.Timeouts
import JabSimul.Configure
import JabSimul.FilterSelection
import JabSimul.LatencyOwner
import JabSimul.RosterChoice
import JabSimul.PendingTable
import JabSimul.RosterRuns
import JabSimul.ForeignIds
import JabSimul.ExpectedKills
import JabSimul.Misdelivery
import JabSimul.DebugHeader
import JabSimul.MessageSource
import JabSimul.HandWritten
import JabSimul.Statistics
import JabSimul.Availability
import JabSimul.RosterAlarm
import JabSimul.RosterLimit
import JabSimul.PatternTraps
import JabSimul.PatternBlanks
import JabSimul.PollRound
import JabSimul.MessageCounters
import JabSimul.ContactsOrder
import JabSimul.PrivReferences
import JabSimul.PoolSafety
import JabSimul.DomForest
import JabSimul.DomLinked
import JabSimul.DomReaders
import JabSimul.DomPrint
import JabSimul.DomRuns
import JabSimul.XstreamRuns
