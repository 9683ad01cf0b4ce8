import VynxHttp.Segmentation
import VynxHttp.FuelLoop
import VynxHttp.DelimitedText
import VynxHttp.EventLog
import VynxHttp.ResourcePool
import VynxHttp.ChunkedCompletion
import VynxHttp.MessageDelivery
import VynxHttp.RequestFraming
import VynxHttp.PoolReuse
import VynxHttp.ConnectionClose
import VynxHttp.RedirectCredentials
import VynxHttp.EventDelivery
import VynxHttp.ParserBuffer
import VynxHttp.HeadSegmentation
import VynxHttp.ParserReuse
import VynxHttp.ChunkDecoder
import VynxHttp.RedirectChain
import VynxHttp.RelativeRedirect
import VynxHttp.SecureCookies
import VynxHttp.CookieScope
import VynxHttp.TimerSilence
import VynxHttp.TimerGrowth
import VynxHttp.TimeoutAccounting
import VynxHttp.IdleReset
import VynxHttp.TaskQueue
import VynxHttp.StopRequest
import VynxHttp.WaitTimeout
import VynxHttp.ByteQueue
import VynxHttp.RepeatedRequest
import VynxHttp.HeaderLookup
import VynxHttp.HeaderLists
import VynxHttp.ContentLength
import VynxHttp.StatusCode
import VynxHttp.UrlText
import VynxHttp.UrlPort
import VynxHttp.DnsFreshness
import VynxHttp.DnsCapacity
import VynxHttp.SignalRegistration
import VynxHttp.HostHeader
import VynxHttp.RedirectHeaders
import VynxHttp.CookieQuery
import VynxHttp.CookieRendering
import VynxHttp.SendLoop
import VynxHttp.RefusedRequest
import VynxHttp.PollTimeout
import VynxHttp.BufferGrowth
import VynxHttp.ByteSearch
import VynxHttp.GuardedLoans
import VynxHttp.CachedAnswer
import VynxHttp.CallbackLocks
import VynxHttp.TimerOwners
import VynxHttp.HappyEyeballs
import VynxHttp.TokenLoops
